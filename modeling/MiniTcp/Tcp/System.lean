import Mathlib.Logic.Function.Basic
import MiniTcp.Tcp.Host
import MiniTcp.Tcp.States

/-!
# Two hosts and a network

Host `a` has called `connect` once, host `b` has no connection yet and may listen.
The network keeps every packet either side has sent and hands any of them to the
other side, as the bytes that were written: once, several times, late, in any
order or never.
-/

namespace MiniTcp

inductive Side where
  | a
  | b
  deriving DecidableEq, Repr

namespace Side

def other : Side → Side
  | .a => .b
  | .b => .a

@[simp] theorem other_other (x : Side) : x.other.other = x := by
  cases x <;> rfl

theorem other_ne (x : Side) : x.other ≠ x := by
  cases x <;> simp [other]

theorem eq_or_eq_other (x y : Side) : y = x ∨ y = x.other := by
  cases x <;> cases y <;> simp [other]

end Side

def ConnectionKey.mirror (k : ConnectionKey) : ConnectionKey :=
  ⟨k.remoteAddr, k.remotePort, k.localAddr, k.localPort⟩

def Emission.source (m : Emission) : ConnectionKey :=
  ⟨m.packet.srcAddr, m.packet.hdr.srcPort, m.packet.dstAddr, m.packet.hdr.dstPort⟩

def Emission.parsed (m : Emission) : TcpHeader :=
  { m.packet.hdr with checksum := m.packet.checksum }

/-- A call that one side can make when the other side has sent `sent`: an arriving
segment is one of those packets, taken apart by the IP layer.  Nobody connects any
more. -/
def TableEvent.Heard (sent : List Emission) : TableEvent → Prop
  | .segment _ _ ipHdr payload => ∃ m ∈ sent, parseIpHeader m.packet.bytes = some ipHdr ∧
      payload = m.packet.bytes.drop (ipHdr.ihl.toNat * 4)
  | .connect .. => False
  | _ => True

def ConnEvent.Heard (sent : List Emission) : ConnEvent → Prop
  | .segment _ seg data => ∃ m ∈ sent, seg = m.parsed ∧ data = m.data
  | _ => True

structure System where
  host : Side → Host
  /-- everything a side has sent -/
  sent : Side → List Emission
  /-- the key of the connection on either side -/
  key : Side → ConnectionKey
  /-- neither connection was removed from its table so far -/
  intact : Bool

namespace System

def track (s : System) (x : Side) : Option Track := (s.host x).tracks (s.key x)

def act (s : System) (x : Side) (e : TableEvent) : System where
  host := Function.update s.host x ((s.host x).step e)
  sent := Function.update s.sent x (s.sent x ++ (s.host x).out e)
  key := s.key
  intact := s.intact &&
    ((s.track x).isNone || (((s.host x).step e).tracks (s.key x)).isSome)

def start (now : Instant) (iss localAddr remoteAddr : UInt32) (remotePort : UInt16) : System where
  host
    | .a => Host.new.step (.connect now iss localAddr remoteAddr remotePort)
    | .b => Host.new
  sent
    | .a => Host.new.out (.connect now iss localAddr remoteAddr remotePort)
    | .b => []
  key
    | .a => ⟨localAddr, Host.new.table.nextEphemeralPort, remoteAddr, remotePort⟩
    | .b => ⟨remoteAddr, remotePort, localAddr, Host.new.table.nextEphemeralPort⟩
  intact := true

/-- Reached by any interleaving of calls that meet `ok`. -/
def Reachable (ok : System → Side → TableEvent → Prop) : System → Prop :=
  Run.Reaches
    (fun s ↦ ∃ now iss localAddr remoteAddr remotePort,
      s = start now iss localAddr remoteAddr remotePort)
    (fun s (p : Side × TableEvent) ↦ p.2.Heard (s.sent p.1.other) ∧ ok s p.1 p.2)
    fun s p ↦ s.act p.1 p.2

abbrev Reached : System → Prop := Reachable fun _ _ _ ↦ True

/-- The arrival of the `n`-th packet the other side has sent. -/
def delivery (s : System) (x : Side) (now : Instant) (iss : UInt32) (n : ℕ) : TableEvent :=
  match (s.sent x.other)[n]? with
  | none => .tick now
  | some m =>
      match parseIpHeader m.packet.bytes with
      | none => .tick now
      | some ipHdr => .segment now iss ipHdr (m.packet.bytes.drop (ipHdr.ihl.toNat * 4))

theorem heard_delivery (s : System) (x : Side) (now : Instant) (iss : UInt32) (n : ℕ) :
    (s.delivery x now iss n).Heard (s.sent x.other) := by
  unfold delivery
  split
  · trivial
  · next m hm =>
      split
      · trivial
      · next ipHdr hparse => exact ⟨m, List.mem_of_getElem? hm, hparse, rfl⟩

def deliver (s : System) (x : Side) (now : Instant) (iss : UInt32) (n : ℕ) : System :=
  s.act x (s.delivery x now iss n)

section Runs

variable {ok : System → Side → TableEvent → Prop} {s : System}

theorem reachable_start (now : Instant) (iss localAddr remoteAddr : UInt32)
    (remotePort : UInt16) : (start now iss localAddr remoteAddr remotePort).Reachable ok :=
  .start ⟨now, iss, localAddr, remoteAddr, remotePort, rfl⟩

theorem Reachable.act (h : s.Reachable ok) (x : Side) (e : TableEvent)
    (he : e.Heard (s.sent x.other)) (hok : ok s x e) : (s.act x e).Reachable ok :=
  Run.Reaches.tail (x, e) h ⟨he, hok⟩

theorem Reachable.deliver (h : s.Reachable ok) (x : Side) (now : Instant) (iss : UInt32) (n : ℕ)
    (hok : ok s x (s.delivery x now iss n)) : (s.deliver x now iss n).Reachable ok :=
  h.act x _ (s.heard_delivery x now iss n) hok

end Runs

section Act

variable {s : System} {x y : Side} {e : TableEvent}

theorem track_act_self : (s.act x e).track x = ((s.host x).step e).tracks (s.key x) := by
  simp [track, act]

theorem track_act_of_ne (h : y ≠ x) : (s.act x e).track y = s.track y := by
  simp [track, act, h]

theorem sent_act_self : (s.act x e).sent x = s.sent x ++ (s.host x).out e := by
  simp [act]

theorem sent_act_of_ne (h : y ≠ x) : (s.act x e).sent y = s.sent y := by
  simp [act, h]

theorem sent_act_prefix (s : System) (x y : Side) (e : TableEvent) :
    s.sent y <+: (s.act x e).sent y := by
  by_cases h : y = x
  · subst h
    rw [sent_act_self]
    exact List.prefix_append _ _
  · rw [sent_act_of_ne h]

theorem intact_of_act (h : (s.act x e).intact = true) : s.intact = true ∧
    ∀ t, s.track x = some t → ∃ t', (s.act x e).track x = some t' := by
  simp only [act, Bool.and_eq_true, Bool.or_eq_true, Option.isNone_iff_eq_none,
    Option.isSome_iff_exists] at h
  refine ⟨h.1, fun t ht ↦ ?_⟩
  rw [track_act_self]
  exact h.2.resolve_left (by simp [ht])

end Act

end System

/-! ## What arrives is what was sent -/

/-- A packet is accepted, if at all, with the header and the data it was sent with,
by the connection it is addressed to. -/
theorem TcpTable.acceptedSegment_bytes {m : Emission} {ipHdr : IpHeader} {seg : TcpHeader}
    {data : Bytes} (hparse : parseIpHeader m.packet.bytes = some ipHdr)
    (h : acceptedSegment ipHdr (m.packet.bytes.drop (ipHdr.ihl.toNat * 4)) = some (seg, data)) :
    seg = m.parsed ∧ data = m.data ∧ segmentKey ipHdr seg = m.source.mirror := by
  obtain ⟨ipHdr', hparse', hsrc, hdst, hdrop⟩ := m.packet.parse_bytes
  obtain rfl : ipHdr' = ipHdr := Option.some.inj (hparse'.symm.trans hparse)
  rw [hdrop] at h
  obtain ⟨hseg, -, rfl⟩ := acceptedSegment_spec h
  obtain rfl := Option.some.inj (m.packet.parse_segment.symm.trans hseg)
  refine ⟨rfl, m.packet.drop_segment, ?_⟩
  rw [segmentKey, hsrc, hdst]
  rfl

namespace TableEvent

variable {sent : List Emission} {e : TableEvent} {k : ConnectionKey} {t : Track}

theorem Heard.on (h : e.Heard sent) {ce : ConnEvent} (hon : e.on k = some ce) :
    ce.Heard sent := by
  cases on_cases hon with
  | segment hacc =>
      obtain ⟨m, hm, hparse, rfl⟩ := h
      obtain ⟨hseg, hdata, -⟩ := TcpTable.acceptedSegment_bytes hparse hacc
      exact ⟨m, hm, hseg, hdata⟩
  | tick | send | recv | close | setRecvCap | setSendCap => trivial

theorem Heard.opened (h : e.Heard sent) {table : TcpTable} (hopen : e.opened table k = some t) :
    table.lookup k = none ∧ ∃ m ∈ sent, ∃ now iss, k = m.source.mirror ∧
      hasFlag m.flags tcpSyn ∧ ¬ hasFlag m.flags tcpAck ∧ t = .passive now iss k m.parsed := by
  cases opened_cases hopen with
  | segment hacc hkey hnone hsyn hack =>
      obtain ⟨m, hm, hparse, rfl⟩ := h
      obtain ⟨rfl, -, hdest⟩ := TcpTable.acceptedSegment_bytes hparse hacc
      exact ⟨hnone, m, hm, _, _, hkey.symm.trans hdest, hsyn, hack, rfl⟩
  | connect => exact h.elim

end TableEvent

/-! ## Addresses -/

def TcpConnection.key (c : TcpConnection) : ConnectionKey :=
  ⟨c.localAddr, c.localPort, c.remoteAddr, c.remotePort⟩

namespace Act

variable {g : Guard} {c c' : TcpConnection} {a : Effect}

theorem key_eq (h : Act g c a c') : c'.key = c.key :=
  congrArg (fun i : TcpConnection.Identity ↦
    (⟨i.localAddr, i.localPort, i.remoteAddr, i.remotePort⟩ : ConnectionKey)) h.identity_eq

theorem source_out (h : Act g c a c') : ∀ m ∈ a.out, m.source = c'.key := by
  intro m hm
  cases h with
  | receive s deadline =>
      rw [TcpConnection.receive_out c _ _ m hm]
      rfl
  | ackOnly | chunk | sendFin | probe | resend =>
      rw [List.mem_singleton.mp hm]
      rfl
  | _ => cases hm

end Act

namespace Track

variable {g : Guard} {t : Track}

theorem Reachable.source (h : t.Reachable g) : ∀ m ∈ t.hist.out, m.source = t.conn.key := by
  refine h.invariant (P := fun c w ↦ ∀ m ∈ w.out, m.source = c.key) ?_ ?_
  · rintro t (⟨now, iss, key, rfl⟩ | ⟨now, iss, key, seg, rfl⟩) m hm <;>
      rw [List.mem_singleton.mp hm] <;> rfl
  · intro c c' w a hinv hact m hm
    rcases List.mem_append.mp hm with hm | hm
    · exact (hinv m hm).trans hact.key_eq.symm
    · exact hact.source_out m hm

theorem key_step (t : Track) (e : ConnEvent) : (t.step e).conn.key = t.conn.key :=
  step_invariant (g := {}) (P := fun c _ ↦ c.key = t.conn.key)
    (fun _ _ _ _ hc hact ↦ hact.key_eq.trans hc) (Guard.admits_empty _ _) rfl

end Track

/-- Every connection in a table carries its own key. -/
theorem Host.Reachable.key {g : Guard} {h : Host} {k : ConnectionKey} {t : Track}
    (hh : h.Reachable g) (ht : h.tracks k = some t) : t.conn.key = k := by
  induction hh generalizing k t with
  | start hnew =>
      subst hnew
      cases ht
  | tail e _ _ ih =>
      rcases Host.tracks_step ht with hopen | ⟨-, t₀, ht₀, rfl⟩
      · rcases TableEvent.opened_key hopen with ⟨now, iss, rfl⟩ | ⟨now, iss, seg, rfl⟩ <;> rfl
      · cases hon : e.on k with
        | none => exact ih ht₀
        | some ce => exact (Track.key_step t₀ ce).trans (ih ht₀)

theorem Host.Reachable.source_emits {g : Guard} {h : Host} {k : ConnectionKey} {t : Track}
    {e : ConnEvent} {m : Emission} (hh : h.Reachable g) (ht : h.tracks k = some t)
    (hm : m ∈ t.conn.emits (some e)) : m.source = k := by
  have hstep : (t.step e).Reachable {} := by
    refine .tail _ ?_ (Guard.admits_empty _ e)
    exact (hh.track ht).mono fun t e _ ↦ Guard.admits_empty t.conn e
  rw [hstep.source m (List.mem_append_right _ hm), Track.key_step, hh.key ht]

/-- What a table sends on a segment, it sends back along the 4-tuple of the segment. -/
theorem Host.Reachable.source_demux {h : Host} (hh : h.Reachable {}) {now : Instant}
    {iss : UInt32} {ipHdr : IpHeader} {seg : TcpHeader} {data : Bytes} {m : Emission}
    (hm : m ∈ (h.table.demux now iss ipHdr seg data).2) :
    m.source = TcpTable.segmentKey ipHdr seg := by
  rcases TcpTable.mem_demux hm with ⟨c, hc, hm⟩ | ⟨-, -, -, -, hm⟩ | rfl
  · rw [h.agree] at hc
    obtain ⟨t, ht, rfl⟩ := Option.map_eq_some_iff.mp hc
    exact hh.source_emits ht hm
  · rw [List.mem_singleton.mp hm]
    rfl
  · rfl

namespace Track

/-- Stands for a connection that was not opened yet. -/
def unborn : Track where
  conn := TcpConnection.new 0
  hist := {}
  seen := []
  finAcked := false
  beforeFin := []

end Track

/-! ## The two ends of the connection -/

namespace System

variable {s : System} {x : Side} {e : TableEvent} {k : ConnectionKey} {m : Emission} {t : Track}

def party (s : System) (x : Side) : Track := (s.track x).getD .unborn

theorem party_of_track (h : s.track x = some t) : s.party x = t := by
  simp [party, h]

theorem party_of_none (h : s.track x = none) : s.party x = .unborn := by
  simp [party, h]

theorem exists_track_of_ne (h : s.party x ≠ .unborn) : ∃ t, s.track x = some t := by
  cases htr : s.track x with
  | some t => exact ⟨t, rfl⟩
  | none => exact absurd (party_of_none htr) h

theorem exists_track_of_mem (h : m ∈ (s.party x).hist.out) : ∃ t, s.track x = some t := by
  refine exists_track_of_ne fun hun ↦ ?_
  rw [hun] at h
  cases h

/-- Up to the first removal: either host has at most the one connection, whose
segments, resets aside, are all that was sent. -/
structure Wired (s : System) : Prop where
  mirror : ∀ x, s.key x.other = (s.key x).mirror
  only : ∀ x k t, (s.host x).tracks k = some t → k = s.key x
  live : ∀ x t, s.track x = some t → t.Reachable {} ∧ t.conn.key = s.key x
  sent : ∀ x, ∀ m ∈ s.sent x, m.IsReset ∨ m ∈ (s.party x).hist.out

namespace Wired

theorem source (hw : Wired s) (hm : m ∈ (s.party x).hist.out) : m.source = s.key x := by
  obtain ⟨t, ht⟩ := exists_track_of_mem hm
  obtain ⟨hreach, hkey⟩ := hw.live x t ht
  rw [party_of_track ht] at hm
  exact (hreach.source m hm).trans hkey

theorem opened (hw : Wired s) (he : e.Heard (s.sent x.other))
    (hopen : e.opened (s.host x).table k = some t) :
    k = s.key x ∧ s.track x = none ∧ ∃ m ∈ (s.party x.other).hist.out, ∃ now iss,
      hasFlag m.flags tcpSyn ∧ t = .passive now iss (s.key x) m.parsed := by
  obtain ⟨hnone, m, hm, now, iss, hk, hsyn, -, ht⟩ := he.opened hopen
  have hout := (hw.sent x.other m hm).resolve_left fun hr ↦ hr.2.1 hsyn
  have hkey : k = s.key x := by
    rw [hk, hw.source hout, ← hw.mirror, Side.other_other]
  subst hkey
  rw [Host.agree, Option.map_eq_none_iff] at hnone
  exact ⟨rfl, hnone, m, hout, now, iss, hsyn, ht⟩

/-- A call leaves an end alone, opens it, or is one event of it. -/
theorem track_act (hw : Wired s) (he : e.Heard (s.sent x.other))
    (hi : (s.act x e).intact = true) (y : Side) :
    (s.act x e).track y = s.track y ∨
      (s.track y = none ∧ ∃ m ∈ (s.party y.other).hist.out, ∃ now iss,
        hasFlag m.flags tcpSyn ∧
          (s.act x e).track y = some (.passive now iss (s.key y) m.parsed)) ∨
      ∃ t ce, s.track y = some t ∧ ce.Heard (s.sent y.other) ∧
        (s.act x e).track y = some (t.step ce) ∧
        (ce.cleans → (t.step ce).conn.state ≠ .closed) := by
  by_cases hy : y = x
  · subst hy
    cases htr' : (s.act y e).track y with
    | none =>
        cases htr : s.track y with
        | none => exact .inl rfl
        | some t =>
            -- nothing was removed
            obtain ⟨t', ht'⟩ := (intact_of_act hi).2 t htr
            rw [htr'] at ht'
            cases ht'
    | some t' =>
        have hstep := htr'
        rw [track_act_self] at hstep
        rcases Host.tracks_step hstep with hopen | ⟨-, t, ht, rfl⟩
        · obtain ⟨-, hnone, m, hm, now, iss, hsyn, rfl⟩ := hw.opened he hopen
          exact .inr (.inl ⟨hnone, m, hm, now, iss, hsyn, rfl⟩)
        · change s.track y = some t at ht
          cases hon : e.on (s.key y) with
          | none =>
              rw [ht]
              exact .inl rfl
          | some ce =>
              refine .inr (.inr ⟨t, ce, ht, he.on hon, rfl, fun hc ↦ ?_⟩)
              rw [hon] at hstep
              have hlook : (s.host y).table.lookup (s.key y) ≠ none := by
                rw [Host.lookup_of_track ht]
                simp
              exact TcpTable.lookup_step_open (Host.lookup_of_track hstep) hon hc hlook
  · exact .inl (track_act_of_ne hy)

/-- What only grows when a connection is opened and with every event of it only grows. -/
theorem party_act {R : Track → Track → Prop} (hrefl : ∀ t, R t t)
    (hopen : ∀ now iss key seg, R .unborn (.passive now iss key seg))
    (hstep : ∀ t ce, R t (t.step ce)) (hw : Wired s) (he : e.Heard (s.sent x.other))
    (hi : (s.act x e).intact = true) (y : Side) : R (s.party y) ((s.act x e).party y) := by
  rcases hw.track_act he hi y with heq | ⟨hnone, m, -, now, iss, -, ht'⟩ | ⟨t, ce, ht, -, ht', -⟩
  · rw [party, party, heq]
    exact hrefl _
  · rw [party_of_none hnone, party_of_track ht']
    exact hopen ..
  · rw [party_of_track ht, party_of_track ht']
    exact hstep t ce

theorem out_act (hw : Wired s) (he : e.Heard (s.sent x.other))
    (hi : (s.act x e).intact = true) (y : Side) :
    (s.party y).hist.out <+: ((s.act x e).party y).hist.out :=
  hw.party_act (R := fun t t' ↦ t.hist.out <+: t'.hist.out) (fun _ ↦ List.prefix_refl _)
    (fun _ _ _ _ ↦ List.nil_prefix) (fun _ _ ↦ List.prefix_append _ _) he hi y

theorem mem_out (hw : Wired s) (he : e.Heard (s.sent x.other))
    (hi : (s.act x e).intact = true) (hm : m ∈ (s.host x).out e) :
    m.IsReset ∨ m ∈ ((s.act x e).party x).hist.out := by
  rcases Host.mem_out hm with ⟨k, t, hopen, hm⟩ | ⟨k, t, ht, hnone, hm⟩ | hrst
  · obtain ⟨rfl, -⟩ := hw.opened he hopen
    right
    rwa [party_of_track (track_act_self.trans (Host.tracks_opened hopen))]
  · obtain rfl := hw.only x k t ht
    obtain ⟨t', ht'⟩ := (intact_of_act hi).2 t ht
    have hstep := ht'
    rw [track_act_self] at hstep
    rcases Host.tracks_step hstep with hopen | ⟨-, t₀, ht₀, rfl⟩
    · rw [hnone] at hopen
      cases hopen
    · obtain rfl : t = t₀ := Option.some.inj (ht.symm.trans ht₀)
      right
      rwa [party_of_track ht']
  · exact .inl hrst

theorem act (hw : Wired s) (he : e.Heard (s.sent x.other)) (hi : (s.act x e).intact = true) :
    Wired (s.act x e) where
  mirror := hw.mirror
  only y k t ht := by
    by_cases hy : y = x
    · subst hy
      simp only [System.act, Function.update_self] at ht
      rcases Host.tracks_step ht with hopen | ⟨-, t₀, ht₀, -⟩
      · exact (hw.opened he hopen).1
      · exact hw.only y k t₀ ht₀
    · simp only [System.act, Function.update_of_ne hy] at ht
      exact hw.only y k t ht
  live y t ht := by
    rcases hw.track_act he hi y with heq | ⟨-, m, -, now, iss, -, ht'⟩ | ⟨t₀, ce, ht₀, -, ht', -⟩
    · exact hw.live y t (heq ▸ ht)
    · obtain rfl := Option.some.inj (ht'.symm.trans ht)
      exact ⟨.start (.inr ⟨now, iss, _, _, rfl⟩), rfl⟩
    · obtain rfl := Option.some.inj (ht'.symm.trans ht)
      obtain ⟨hreach, hkey⟩ := hw.live y t₀ ht₀
      exact ⟨hreach.step (Guard.admits_empty _ _), (Track.key_step t₀ ce).trans hkey⟩
  sent y m hm := by
    have hold (hm : m ∈ s.sent y) : m.IsReset ∨ m ∈ ((s.act x e).party y).hist.out :=
      (hw.sent y m hm).imp id fun hm ↦ (hw.out_act he hi y).subset hm
    by_cases hy : y = x
    · subst hy
      rw [sent_act_self] at hm
      exact (List.mem_append.mp hm).elim hold (hw.mem_out he hi)
    · rw [sent_act_of_ne hy] at hm
      exact hold hm

end Wired

theorem track_start (now : Instant) (iss localAddr remoteAddr : UInt32) (remotePort : UInt16) :
    (start now iss localAddr remoteAddr remotePort).track .a = some (.active now iss
      ((start now iss localAddr remoteAddr remotePort).key .a)) :=
  Host.tracks_opened (if_pos rfl)

theorem wired_start (now : Instant) (iss localAddr remoteAddr : UInt32) (remotePort : UInt16) :
    Wired (start now iss localAddr remoteAddr remotePort) := by
  have hopen (k : ConnectionKey) (t : Track)
      (ht : ((start now iss localAddr remoteAddr remotePort).host .a).tracks k = some t) :
      k = (start now iss localAddr remoteAddr remotePort).key .a ∧ t = .active now iss k := by
    rcases Host.tracks_step ht with hopen | ⟨-, t₀, ht₀, -⟩
    · cases TableEvent.opened_cases hopen with
      | connect hkey => exact ⟨hkey.symm, rfl⟩
    · cases ht₀
  refine ⟨fun x ↦ by cases x <;> rfl, fun x k t ht ↦ ?_, fun x t ht ↦ ?_, fun x m hm ↦ ?_⟩
  · cases x with
    | a => exact (hopen k t ht).1
    | b => cases ht
  · cases x with
    | a =>
        obtain ⟨-, rfl⟩ := hopen _ t ht
        exact ⟨.start (.inl ⟨now, iss, _, rfl⟩), rfl⟩
    | b => cases ht
  · cases x with
    | a =>
        right
        rwa [party_of_track (track_start ..)]
    | b => cases hm

/-- An invariant of the two ends up to the first removal: it holds at the start and
survives every call that removes nothing. -/
theorem Reachable.invariant {ok : System → Side → TableEvent → Prop} {P : System → Prop}
    (hstart : ∀ now iss localAddr remoteAddr remotePort,
      P (start now iss localAddr remoteAddr remotePort))
    (hact : ∀ s x e, s.Reachable ok → Wired s → e.Heard (s.sent x.other) →
      (s.act x e).intact = true → P s → P (s.act x e))
    (h : s.Reachable ok) (hi : s.intact = true) : Wired s ∧ P s := by
  refine Run.Reaches.invariant (P := fun s : System ↦ s.intact = true → Wired s ∧ P s)
    ?_ ?_ h hi
  · rintro s ⟨now, iss, localAddr, remoteAddr, remotePort, rfl⟩ -
    exact ⟨wired_start .., hstart ..⟩
  · rintro s ⟨x, e⟩ hs ⟨he, -⟩ ih hi
    obtain ⟨hw, hP⟩ := ih (intact_of_act hi).1
    exact ⟨hw.act he hi, hact s x e hs hw he hi hP⟩

theorem Reachable.wired {ok : System → Side → TableEvent → Prop} (h : s.Reachable ok)
    (hi : s.intact = true) : Wired s :=
  (h.invariant (P := fun _ ↦ True) (fun _ _ _ _ _ ↦ trivial)
    (fun _ _ _ _ _ _ _ _ ↦ trivial) hi).1

/-- The same for an invariant of either end by itself: side `a` was opened actively,
and an end that is still there is open after every segment and every tick. -/
theorem Reachable.track_invariant {ok : System → Side → TableEvent → Prop}
    {P : Side → Track → Prop} (hactive : ∀ now iss key, P .a (.active now iss key))
    (hpassive : ∀ x now iss key seg, P x (.passive now iss key seg))
    (hstep : ∀ x t ce, t.Reachable {} → (ce.cleans → (t.step ce).conn.state ≠ .closed) →
      P x t → P x (t.step ce))
    (h : s.Reachable ok) (hi : s.intact = true) (ht : s.track x = some t) : P x t := by
  refine (h.invariant (P := fun s ↦ ∀ x t, s.track x = some t → P x t) ?_ ?_ hi).2 x t ht
  · intro now iss localAddr remoteAddr remotePort x t ht
    cases x with
    | a =>
        obtain rfl := Option.some.inj ((track_start ..).symm.trans ht)
        exact hactive ..
    | b => cases ht
  · intro s x e _ hw he hi ih y t ht
    rcases hw.track_act he hi y with heq | ⟨-, m, -, now, iss, -, ht'⟩ |
      ⟨t₀, ce, ht₀, -, ht', hopen⟩
    · exact ih y t (heq ▸ ht)
    · obtain rfl := Option.some.inj (ht'.symm.trans ht)
      exact hpassive ..
    · obtain rfl := Option.some.inj (ht'.symm.trans ht)
      exact hstep y t₀ ce (hw.live y t₀ ht₀).1 hopen (ih y t₀ ht₀)

end System

end MiniTcp
