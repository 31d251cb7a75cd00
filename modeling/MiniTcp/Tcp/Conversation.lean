import MiniTcp.Tcp.Integrity

/-!
# The two ends of one connection

A conversation is what is left of a connection when tables, hosts and the network
are forgotten: two ends and their histories.  One end moves at a time.  It calls
`connect`, or is opened by a SYN of the other end, or takes an event; a segment it
is given was sent by the other end or is a reset from anywhere.  An end that was
removed from its table stays here as it was.
-/

namespace MiniTcp

open Serial TcpConnection

structure Conversation where
  track : Side → Option Track

namespace Conversation

def silent : Conversation where
  track _ := none

def party (c : Conversation) (x : Side) : Track := (c.track x).getD .unborn

def Hears (c : Conversation) (x : Side) (ce : ConnEvent) : Prop :=
  ∃ sent, (∀ m ∈ sent, m.IsReset ∨ m ∈ (c.party x.other).hist.out) ∧ ce.Heard sent

/-- What end `x` can become next. -/
inductive Moves (c : Conversation) (x : Side) : Track → Prop
  | connect (now : Instant) (iss : UInt32) (key : ConnectionKey) (hnone : c.track x = none) :
      Moves c x (.active now iss key)
  | answer (now : Instant) (iss : UInt32) (key : ConnectionKey) {m : Emission}
      (hnone : c.track x = none) (hm : m ∈ (c.party x.other).hist.out)
      (hsyn : hasFlag m.flags tcpSyn) : Moves c x (.passive now iss key m.parsed)
  | event {t : Track} {ce : ConnEvent} (ht : c.track x = some t) (hce : c.Hears x ce) :
      Moves c x (t.step ce)

def move (c : Conversation) (p : Side × Track) : Conversation where
  track := Function.update c.track p.1 (some p.2)

def Reached : Conversation → Prop :=
  Run.Reaches (· = silent) (fun c p ↦ c.Moves p.1 p.2) move

variable {c c' : Conversation} {x y : Side} {t : Track} {m : Emission}

theorem party_of_track (h : c.track x = some t) : c.party x = t := by
  simp [party, h]

theorem party_of_none (h : c.track x = none) : c.party x = .unborn := by
  simp [party, h]

theorem exists_track_of_mem (h : m ∈ (c.party x).hist.out) : ∃ t, c.track x = some t := by
  cases htr : c.track x with
  | some t => exact ⟨t, rfl⟩
  | none =>
      rw [party_of_none htr] at h
      cases h

theorem track_move_self : (c.move (x, t)).track x = some t := Function.update_self ..

theorem track_move_other : (c.move (x, t)).track x.other = c.track x.other :=
  Function.update_of_ne x.other_ne ..

theorem party_move_self : (c.move (x, t)).party x = t := party_of_track track_move_self

theorem party_move_other : (c.move (x, t)).party x.other = c.party x.other := by
  rw [party, track_move_other, party]

theorem Reached.move (h : c.Reached) (hmove : c.Moves x t) : (c.move (x, t)).Reached :=
  Run.Reaches.tail (x, t) h hmove

theorem Moves.cases_party (h : c.Moves x t) :
    (c.party x = .unborn ∧ t.Opened) ∨ ∃ ce, t = (c.party x).step ce := by
  cases h with
  | connect now iss key hnone => exact .inl ⟨party_of_none hnone, .inl ⟨now, iss, key, rfl⟩⟩
  | answer now iss key hnone => exact .inl ⟨party_of_none hnone, .inr ⟨now, iss, key, _, rfl⟩⟩
  | event ht => exact .inr ⟨_, by rw [party_of_track ht]⟩

/-- What grows when an end is opened and with every event grows with every move. -/
theorem Moves.party_mono {R : Track → Track → Prop} (hrefl : ∀ t, R t t)
    (hopen : ∀ t : Track, t.Opened → R .unborn t) (hstep : ∀ t ce, R t (t.step ce))
    (h : c.Moves x t) (y : Side) : R (c.party y) ((c.move (x, t)).party y) := by
  rcases x.eq_or_eq_other y with rfl | rfl
  · rw [party_move_self]
    rcases h.cases_party with ⟨hun, ht⟩ | ⟨ce, rfl⟩
    · rw [hun]
      exact hopen t ht
    · exact hstep _ ce
  · rw [party_move_other]
    exact hrefl _

theorem Moves.out_prefix (h : c.Moves x t) (y : Side) :
    (c.party y).hist.out <+: ((c.move (x, t)).party y).hist.out :=
  h.party_mono (R := fun t t' ↦ t.hist.out <+: t'.hist.out) (fun _ ↦ List.prefix_refl _)
    (fun _ _ ↦ List.nil_prefix) (fun _ _ ↦ List.prefix_append _ _) y

theorem Moves.accepted_prefix (h : c.Moves x t) (y : Side) :
    (c.party y).hist.accepted <+: ((c.move (x, t)).party y).hist.accepted :=
  h.party_mono (R := fun t t' ↦ t.hist.accepted <+: t'.hist.accepted)
    (fun _ ↦ List.prefix_refl _) (fun _ _ ↦ List.nil_prefix)
    (fun _ _ ↦ List.prefix_append _ _) y

/-- A move stays possible when only the other end has moved. -/
theorem Moves.after (h : c.Moves x t) {u : Track} (hu : c.Moves x.other u) :
    (c.move (x.other, u)).Moves x t := by
  have hout := hu.out_prefix x.other
  have htrack : (c.move (x.other, u)).track x = c.track x := by
    have hother := track_move_other (c := c) (x := x.other) (t := u)
    rwa [Side.other_other] at hother
  cases h with
  | connect now iss key hnone => exact .connect now iss key (htrack.trans hnone)
  | answer now iss key hnone hm hsyn =>
      exact .answer now iss key (htrack.trans hnone) (hout.subset hm) hsyn
  | event ht hce =>
      obtain ⟨sent, hsent, hheard⟩ := hce
      exact .event (htrack.trans ht)
        ⟨sent, fun m hm ↦ (hsent m hm).imp id fun hm ↦ hout.subset hm, hheard⟩

/-! ## Both directions -/

/-- The two ends fit together, and nobody has heard of an end that is not open. -/
structure Fits (c : Conversation) : Prop where
  live : ∀ x t, c.track x = some t → t.Reachable {}
  flow : ∀ x, Flow (c.party x) (c.party x.other)
  unheard : ∀ x, c.track x = none → (c.party x.other).hist.syn = false

theorem Fits.sndInv (h : Fits c) (hne : (c.party x).hist.out ≠ []) :
    SndInv (c.party x).conn (c.party x).hist := by
  obtain ⟨m, hm⟩ := List.exists_mem_of_ne_nil _ hne
  obtain ⟨t, ht⟩ := exists_track_of_mem hm
  rw [party_of_track ht]
  exact (h.live x t ht).sndInv

theorem Fits.sent_prefix (h : Fits c) (x : Side) :
    sentBytes (c.party x).hist.out <+: (c.party x).hist.accepted := by
  cases htr : c.track x with
  | none =>
      rw [party_of_none htr]
      exact List.prefix_refl _
  | some t =>
      rw [party_of_track htr, ← (h.live x t htr).sndInv.pending]
      exact List.prefix_append _ _

theorem Fits.move (h : Fits c) (hreach : t.Reachable {}) (hxy : Flow t (c.party x.other))
    (hyx : Flow (c.party x.other) t) (hy : c.track x.other = none → t.hist.syn = false) :
    Fits (c.move (x, t)) := by
  refine ⟨fun y u hu ↦ ?_, fun y ↦ ?_, fun y hnone ↦ ?_⟩
  · rcases x.eq_or_eq_other y with rfl | rfl
    · rw [track_move_self] at hu
      exact Option.some.inj hu ▸ hreach
    · exact h.live _ u (track_move_other.symm.trans hu)
  · rcases x.eq_or_eq_other y with rfl | rfl
    · rwa [party_move_self, party_move_other]
    · rwa [Side.other_other, party_move_self, party_move_other]
  · rcases x.eq_or_eq_other y with rfl | rfl
    · rw [track_move_self] at hnone
      cases hnone
    · rw [Side.other_other, party_move_self]
      exact hy (track_move_other.symm.trans hnone)

theorem flow_unborn : Flow .unborn .unborn :=
  ⟨⟨fun _ ↦ ⟨.inr rfl, rfl, rfl, rfl, rfl, nofun, nofun⟩, nofun⟩, nofun, nofun,
    ⟨0, Nat.zero_le _, rfl, fun _ hopen ↦ absurd rfl hopen⟩, nofun⟩

theorem flow_to_active {u : Track} (h : Flow u .unborn) (now : Instant) (iss : UInt32)
    (key : ConnectionKey) : Flow u (.active now iss key) := by
  obtain ⟨j, hj, huna⟩ := h.una
  exact ⟨Track.Opened.rcvInv (.inl ⟨now, iss, key, rfl⟩), nofun, nofun,
    ⟨j, hj.trans (Nat.zero_le _), huna⟩, h.probes⟩

theorem flow_from_active {u : Track} (h : Flow .unborn u) (hsyn : u.hist.syn = false)
    (now : Instant) (iss : UInt32) (key : ConnectionKey) : Flow (.active now iss key) u := by
  have hun := h.rcv.1 hsyn
  refine ⟨⟨fun _ ↦ hun, fun hs ↦ ?_⟩, fun hs ↦ ?_, fun hf ↦ ?_,
    ⟨0, Nat.zero_le _, (shift_zero _).symm, nofun⟩, fun m hm hp ↦ ?_⟩
  · rw [hsyn] at hs
    cases hs
  · rw [hsyn] at hs
    cases hs
  · rw [hun.fin] at hf
    cases hf
  · rw [List.mem_singleton.mp hm] at hp
    cases hp

theorem Fits.step (h : Fits c) (hS : ∀ y, (sentBytes (c.party y).hist.out).length + 1 < 2 ^ 32)
    (hmove : c.Moves x t) : Fits (c.move (x, t)) := by
  have hxy := h.flow x
  have hyx := h.flow x.other
  have hheard := h.unheard x.other
  rw [Side.other_other] at hyx hheard
  cases hmove with
  | connect now iss key hnone =>
      have hclosed := h.unheard x hnone
      rw [party_of_none hnone] at hxy hyx
      exact h.move (.start (.inl ⟨now, iss, key, rfl⟩)) (flow_from_active hxy hclosed now iss key)
        (flow_to_active hyx now iss key) fun _ ↦ rfl
  | answer now iss key hnone hm hsyn =>
      have hclosed := h.unheard x hnone
      obtain ⟨u, hu⟩ := exists_track_of_mem hm
      rw [party_of_none hnone] at hxy hyx
      refine h.move (.start (.inr ⟨now, iss, key, _, rfl⟩))
        (hxy.open_sender hclosed now iss key _)
        (hyx.open_receiver (h.sndInv (List.ne_nil_of_mem hm)) hm hsyn now iss key) fun hno ↦ ?_
      rw [hu] at hno
      cases hno
  | @event t ce ht hce =>
      obtain ⟨sent, hsent, hheardce⟩ := hce
      rw [party_of_track ht] at hxy hyx hheard
      have hg := heardFrom_admits h.sndInv hyx hxy hsent hheardce
      have hlive := h.live x t ht
      refine h.move (hlive.step (Guard.admits_empty _ _)) (hxy.send hlive.sndInv hg)
        (hyx.receive (hS x.other) hg) fun hno ↦ ?_
      rw [party_of_none hno] at hg
      exact System.syn_of_unborn hg (hheard hno)

theorem fits_silent : Fits silent := ⟨nofun, fun _ ↦ flow_unborn, fun _ _ ↦ rfl⟩

/-- Whatever is lost, repeated or reordered, the two ends fit together as long as
the numbers of either direction are not exhausted. -/
theorem Reached.fits (h : c.Reached)
    (hlen : ∀ x, (c.party x).hist.accepted.length < 2 ^ 32 - 2) : Fits c := by
  refine Run.Reaches.invariant
    (P := fun c : Conversation ↦ (∀ x, (c.party x).hist.accepted.length < 2 ^ 32 - 2) → Fits c)
    ?_ ?_ h hlen
  · rintro c rfl -
    exact fits_silent
  · rintro c ⟨x, t⟩ _ hmove ih hlen
    have hlen₀ (y : Side) : (c.party y).hist.accepted.length < 2 ^ 32 - 2 :=
      (hmove.accepted_prefix y).length_le.trans_lt (hlen y)
    refine (ih hlen₀).step (fun y ↦ ?_) hmove
    have hle := (Fits.sent_prefix (ih hlen₀) y).length_le
    have hlt := hlen₀ y
    omega

/-- The bytes taken by one end are the first of those accepted by the other, and all
that it accepted before its FIN once the FIN was consumed. -/
theorem Fits.received (h : Fits c) (x : Side) :
    (c.party x.other).received <+: (c.party x).hist.accepted ∧
      ((c.party x.other).hist.fin = true →
        (c.party x.other).received = (c.party x).beforeFin) := by
  have hflow := h.flow x
  refine ⟨?_, fun hfin ↦ ?_⟩
  · cases hsyn : (c.party x.other).hist.syn with
    | false =>
        have hun := hflow.rcv.1 hsyn
        rw [Track.received, TcpConnection.received, hun.buffer, hun.returned]
        exact List.nil_prefix
    | true => exact (hflow.receiving hsyn).stream.trans (h.sent_prefix x)
  · have hone := hflow.fin hfin
    rw [hflow.received_eq hfin]
    cases htr : c.track x with
    | none =>
        rw [party_of_none htr] at hone
        cases hone
    | some t =>
        rw [party_of_track htr] at hone ⊢
        exact ((h.live x t htr).beforeFin_eq (by simp [Track.finSent, hone])).symm

end Conversation

end MiniTcp
