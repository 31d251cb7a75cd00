import MiniTcp.Tcp.System

/-!
# Flow control

The sending half never sends beyond `snd_una + snd_wnd`.  That sum is one the peer has
advertised as long as no acknowledgement older than `snd_una` brings an old, larger
window: `process_ack` takes the window of every acknowledgement, also of one that it
does not take the number of.
-/

namespace MiniTcp

open TcpConnection

/-- The number `n` is at most the sum of acknowledgement and window in some segment of
`sent`. -/
def Advertised (sent : List Emission) (n : ℕ) : Prop :=
  ∃ g ∈ sent, hasFlag g.flags tcpAck ∧ ¬ hasFlag g.flags tcpRst ∧
    n ≤ g.packet.hdr.ackNum.toNat + g.packet.hdr.window.toNat

theorem Advertised.mono {sent sent' : List Emission} {n : ℕ} (h : Advertised sent n)
    (hsub : sent <+: sent') : Advertised sent' n := by
  obtain ⟨g, hg, hflags⟩ := h
  exact ⟨g, hsub.subset hg, hflags⟩

/-! ## What the actions do to the window -/

theorem TcpConnection.chunkLen_window {c : TcpConnection} (h : c.chunkLen ≠ 0) :
    c.sndNxt.toNat + c.chunkLen ≤ c.sndUna.toNat + c.sndWnd.toNat := by
  have hopen : c.bytesInFlight < c.sndWnd := by
    by_contra hfull
    exact h (chunkLen_eq_zero_iff.mpr (.inr (UInt32.not_lt.mp hfull)))
  have hle : c.chunkLen ≤ (c.sndWnd - c.bytesInFlight).toNat := by
    unfold chunkLen
    dsimp only
    split_ifs <;> omega
  rw [UInt32.toNat_sub_of_le _ _ (UInt32.le_of_lt hopen)] at hle
  rw [UInt32.lt_iff_toNat_lt] at hopen
  have hflight : c.bytesInFlight.toNat = _ := UInt32.toNat_sub c.sndNxt c.sndUna
  have hnxt := c.sndNxt.toNat_lt
  have huna := c.sndUna.toNat_lt
  omega

namespace Act

variable {g : Guard} {c c' : TcpConnection} {a : Effect}

/-- The window comes with the number of its acknowledgement, or with an old number, or
both stay as they are. -/
theorem window_cases (h : Act g c a c') :
    (∃ seg, hasFlag seg.flags tcpAck ∧ g.ack c seg ∧ c'.sndWnd = seg.window.toUInt32 ∧
        (c'.sndUna = seg.ackNum ∨
          c.state.readsAck ∧ c'.sndUna = c.sndUna ∧ ¬ c.sndUna < seg.ackNum)) ∨
      c'.sndUna = c.sndUna ∧ c'.sndWnd = c.sndWnd ∧
        (c'.state.handshake = false → c'.state ≠ .closed →
          c.state.handshake = false ∧ c.state ≠ .closed) := by
  cases h with
  | synAck _ _ hack _ hg | finalAck _ hack _ hg => exact .inl ⟨_, hack, hg, rfl, .inl rfl⟩
  | @ack seg hst hack hg =>
      refine .inl ⟨seg, hack, hg, ?_, ?_⟩
      · simp only [processAck, if_pos hack]
        split_ifs <;> rfl
      · by_cases hnew : c.sndUna < seg.ackNum
        · left
          simp only [processAck, if_pos hack, if_pos hnew]
          split_ifs <;> rfl
        · refine .inr ⟨hst, ?_, hnew⟩
          simp only [processAck, if_pos hack, if_neg hnew]
          split_ifs <;> rfl
  | @receive seg payload s deadline hrec =>
      obtain ⟨nxt, buf, ooo, hconn⟩ := receive_eq c seg payload
      refine .inr ⟨by rw [hconn], by rw [hconn], fun _ _ ↦ ?_⟩
      cases hs : c.state <;> simp [hs, TcpState.receives, TcpState.handshake] at hrec ⊢
  | sendFin now s hst =>
      refine .inr ⟨rfl, rfl, fun _ _ ↦ ?_⟩
      rcases hst with ⟨hst, -⟩ | ⟨hst, -⟩ <;> simp [hst, TcpState.handshake]
  | finAcked deadline hst =>
      exact .inr ⟨rfl, rfl, fun _ _ ↦ by simp [hst, TcpState.handshake]⟩
  | abort => exact .inr ⟨rfl, rfl, fun _ hopen ↦ absurd rfl hopen⟩
  | _ => exact .inr ⟨rfl, rfl, fun hno hopen ↦ ⟨hno, hopen⟩⟩

end Act

/-! ## Staying within what was advertised -/

/-- No acknowledgement that `process_ack` takes brings a window beyond what was
advertised: it is not older than `snd_una`, or its window is small enough. -/
def freshAcks (sent : List Emission) : Guard where
  ack c seg := c.state.readsAck = true →
    c.sndUna ≤ seg.ackNum ∨ Advertised sent (c.sndUna.toNat + seg.window.toNat)

def heardAcks (sent : List Emission) : Guard where
  ack c seg := (freshAcks sent).ack c seg ∧
    Advertised sent (seg.ackNum.toNat + seg.window.toNat)

theorem heardAcks_admits {sent : List Emission} {c : TcpConnection} {ce : ConnEvent}
    (hfresh : (freshAcks sent).Admits c ce) (he : ce.Heard sent) :
    (heardAcks sent).Admits c ce := by
  cases ce with
  | segment now seg data =>
      obtain ⟨m, hm, rfl, rfl⟩ := he
      refine ⟨fun htakes ↦ ⟨hfresh.1 htakes, m, hm, htakes.1, htakes.2.1, le_rfl⟩,
        fun _ _ _ ↦ trivial⟩
  | _ => trivial

/-- The window, the queue and everything sent stay within what the peer advertised. -/
structure Within (sent : List Emission) (c : TcpConnection) (w : Effect) : Prop where
  window : c.state.handshake = false → c.state ≠ .closed →
    Advertised sent (c.sndUna.toNat + c.sndWnd.toNat)
  queue : ∀ u ∈ c.retransmitQueue, u.data ≠ [] →
    Advertised sent (u.seq.toNat + u.data.length)
  out : ∀ m ∈ w.out, m.data ≠ [] → m.origin ≠ .probe →
    Advertised sent (m.seq.toNat + m.data.length)

namespace Within

variable {sent sent' : List Emission} {c c' : TcpConnection} {w a : Effect}

theorem mono (h : Within sent c w) (hsub : sent <+: sent') : Within sent' c w where
  window hno hopen := (h.window hno hopen).mono hsub
  queue u hu hne := (h.queue u hu hne).mono hsub
  out m hm hne ho := (h.out m hm hne ho).mono hsub

theorem window_step (h : Within sent c w) (hact : Act (heardAcks sent) c a c')
    (hno : c'.state.handshake = false) (hopen : c'.state ≠ .closed) :
    Advertised sent (c'.sndUna.toNat + c'.sndWnd.toNat) := by
  rcases hact.window_cases with ⟨seg, -, ⟨hfresh, hadv⟩, hwnd, huna | ⟨hst, huna, hold⟩⟩ |
    ⟨huna, hwnd, hkeep⟩
  · rw [huna, hwnd, UInt16.toNat_toUInt32]
    exact hadv
  · rw [huna, hwnd, UInt16.toNat_toUInt32]
    rcases hfresh hst with hle | hsmall
    · -- the acknowledgement repeats `snd_una`
      have heq : c.sndUna = seg.ackNum := UInt32.le_antisymm hle (UInt32.not_lt.mp hold)
      rw [heq]
      exact hadv
    · exact hsmall
  · obtain ⟨hno, hopen⟩ := hkeep hno hopen
    rw [huna, hwnd]
    exact h.window hno hopen

theorem new_data (h : Within sent c w) {flags : UInt8} {data : Bytes}
    (hq : QueuesNew c a c' flags data) (hne : data ≠ []) :
    Advertised sent (c.sndNxt.toNat + data.length) := by
  rcases hq.kind with ⟨-, -, hle, -⟩ | ⟨-, hnil, -⟩
  · have hpos := List.length_pos_of_ne_nil hne
    have hwnd := chunkLen_window (c := c) (by omega)
    have hst := hq.sends
    obtain ⟨g, hg, hack, hrst, hbound⟩ := h.window
      (by cases hs : c.state <;> simp_all [TcpState.sends, TcpState.handshake])
      (by rintro hs; simp [hs, TcpState.sends] at hst)
    exact ⟨g, hg, hack, hrst, by omega⟩
  · exact absurd hnil hne

theorem step (h : Within sent c w) (hact : Act (heardAcks sent) c a c') :
    Within sent c' (w + a) := by
  refine ⟨h.window_step hact, fun u hu hne ↦ ?_, fun m hm hne ho ↦ ?_⟩
  · rcases hact.outbound_cases with ⟨flags, data, hq⟩ | hq
    · obtain ⟨now, hqueue⟩ := hq.queue
      rw [hqueue] at hu
      rcases List.mem_append.mp hu with hu | hu
      · exact h.queue u hu hne
      · rw [List.mem_singleton.mp hu] at hne ⊢
        exact h.new_data hq hne
    · obtain ⟨v, hv, -, hseq, hdata⟩ := hq.queue u hu
      rw [← hseq, ← hdata]
      exact h.queue v hv (hdata ▸ hne)
  · rcases List.mem_append.mp hm with hm | hm
    · exact h.out m hm hne ho
    · rcases hact.outbound_cases with ⟨flags, data, hq⟩ | hq
      · rw [hq.out] at hm
        rw [List.mem_singleton.mp hm] at hne ⊢
        exact h.new_data hq hne
      · rcases (hq.out m hm).2 with ⟨hp, -⟩ | ⟨-, ⟨u, hu, -, hseq, hdata⟩ | ⟨-, hnil⟩⟩
        · exact absurd hp ho
        · rw [hseq, hdata]
          exact h.queue u hu (hdata ▸ hne)
        · exact absurd hnil hne

end Within

theorem Track.Opened.within {t : Track} (h : t.Opened) (sent : List Emission) :
    Within sent t.conn t.hist := by
  obtain ⟨hst, hqueue, hout⟩ : t.conn.state.handshake = true ∧
      (∀ u ∈ t.conn.retransmitQueue, u.data = []) ∧ ∀ m ∈ t.hist.out, m.data = [] := by
    rcases h with ⟨now, iss, key, rfl⟩ | ⟨now, iss, key, seg, rfl⟩
    all_goals
      refine ⟨rfl, fun u hu ↦ ?_, fun m hm ↦ ?_⟩
      · rw [List.mem_singleton.mp hu]
      · rw [List.mem_singleton.mp hm]
        rfl
  refine ⟨fun hno ↦ ?_, fun u hu hne ↦ absurd (hqueue u hu) hne,
    fun m hm hne ↦ absurd (hout m hm) hne⟩
  rw [hst] at hno
  cases hno

theorem Track.within_step {t : Track} {sent : List Emission} {ce : ConnEvent}
    (h : Within sent t.conn t.hist) (hfresh : (freshAcks sent).Admits t.conn ce)
    (he : ce.Heard sent) : Within sent (t.step ce).conn (t.step ce).hist :=
  step_invariant (fun _ _ _ _ hinv hact ↦ hinv.step hact) (heardAcks_admits hfresh he) h

/-! ## Every run -/

namespace System

variable {s : System} {x : Side} {e : TableEvent}

def FreshAcks (s : System) (x : Side) (e : TableEvent) : Prop :=
  (s.host x).Admits (freshAcks (s.sent x.other)) e

/-- Either side stays within what the other has advertised so far. -/
structure Respects (s : System) (x : Side) : Prop where
  tracks : ∀ k t, (s.host x).tracks k = some t → Within (s.sent x.other) t.conn t.hist
  sent : ∀ m ∈ s.sent x, m.data ≠ [] → m.origin ≠ .probe →
    Advertised (s.sent x.other) (m.seq.toNat + m.data.length)

theorem Respects.after (h : Respects s x) (he : e.Heard (s.sent x.other))
    (hfresh : FreshAcks s x e) {k : ConnectionKey} {t : Track}
    (ht : (s.host x).tracks k = some t) :
    Within (s.sent x.other) (t.after (e.on k)).conn (t.after (e.on k)).hist := by
  cases hon : e.on k with
  | none => exact h.tracks k t ht
  | some ce => exact Track.within_step (h.tracks k t ht) (hfresh k t ce ht hon) (he.on hon)

theorem Respects.act_self (h : Respects s x) (he : e.Heard (s.sent x.other))
    (hfresh : FreshAcks s x e) : Respects (s.act x e) x := by
  have hsent : (s.act x e).sent x.other = s.sent x.other := sent_act_of_ne x.other_ne
  refine ⟨fun k t ht ↦ ?_, fun m hm hne ho ↦ ?_⟩
  · rw [hsent]
    simp only [System.act, Function.update_self] at ht
    rcases Host.tracks_step ht with hopen | ⟨-, t₀, ht₀, rfl⟩
    · exact (TableEvent.opened_spec hopen).within _
    · exact h.after he hfresh ht₀
  · rw [hsent]
    rw [sent_act_self] at hm
    rcases List.mem_append.mp hm with hm | hm
    · exact h.sent m hm hne ho
    · rcases Host.mem_out hm with ⟨k, t, hopen, hm⟩ | ⟨k, t, ht, -, hm⟩ | hrst
      · exact ((TableEvent.opened_spec hopen).within _).out m hm hne ho
      · exact (h.after he hfresh ht).out m hm hne ho
      · exact absurd hrst.2.2 hne

theorem Respects.act_other (h : Respects s x.other) : Respects (s.act x e) x.other := by
  have hsub := s.sent_act_prefix x x.other.other e
  refine ⟨fun k t ht ↦ ?_, fun m hm hne ho ↦ ?_⟩
  · simp only [System.act, Function.update_of_ne x.other_ne] at ht
    exact (h.tracks k t ht).mono hsub
  · rw [sent_act_of_ne x.other_ne] at hm
    exact (h.sent m hm hne ho).mono hsub

theorem respects_start (now : Instant) (iss localAddr remoteAddr : UInt32) (remotePort : UInt16)
    (x : Side) : Respects (start now iss localAddr remoteAddr remotePort) x := by
  cases x with
  | a =>
      refine ⟨fun k t ht ↦ ?_, fun m hm hne ↦ ?_⟩
      · rcases Host.tracks_step ht with hopen | ⟨-, t₀, ht₀, -⟩
        · exact (TableEvent.opened_spec hopen).within _
        · cases ht₀
      · rw [List.mem_singleton.mp hm] at hne
        exact absurd rfl hne
  | b =>
      refine ⟨fun k t ht ↦ ?_, fun m hm ↦ ?_⟩
      · cases ht
      · cases hm

theorem Reachable.respects (hs : s.Reachable FreshAcks) (x : Side) : Respects s x := by
  refine Run.Reaches.invariant (P := fun s : System ↦ ∀ x, Respects s x) ?_ ?_ hs x
  · rintro s ⟨now, iss, localAddr, remoteAddr, remotePort, rfl⟩ x
    exact respects_start ..
  · rintro s ⟨x, e⟩ - ⟨he, hfresh⟩ ih y
    rcases x.eq_or_eq_other y with rfl | rfl
    · exact (ih y).act_self he hfresh
    · exact (ih x.other).act_other

/-- As long as no old acknowledgement brings a window beyond what was advertised, every
data segment but the probe ends at or before some sum of acknowledgement and window that
the other side has sent. -/
theorem data_within_advertised (hs : s.Reachable FreshAcks) (x : Side) :
    ∀ m ∈ s.sent x, m.data ≠ [] → m.origin ≠ .probe →
      ∃ g ∈ s.sent x.other, hasFlag g.flags tcpAck ∧ ¬ hasFlag g.flags tcpRst ∧
        m.seq.toNat + m.data.length ≤ g.packet.hdr.ackNum.toNat + g.packet.hdr.window.toNat ∧
        (s.intact = true → g ∈ (s.party x.other).hist.out) := by
  intro m hm hne ho
  obtain ⟨g, hg, hack, hrst, hbound⟩ := (Reachable.respects hs x).sent m hm hne ho
  refine ⟨g, hg, hack, hrst, hbound, fun hi ↦ ?_⟩
  exact ((Reachable.wired hs hi).sent x.other g hg).resolve_left fun hr ↦ hrst hr.1

theorem Reachable.deliver_fresh (hs : s.Reachable FreshAcks) (x : Side) (now : Instant)
    (iss : UInt32) (n : ℕ) (hi : s.intact = true)
    (hall : (s.track x).all (fun t ↦ !t.conn.state.readsAck || (s.sent x.other).all fun m ↦
      !hasFlag m.flags tcpAck || t.conn.sndUna ≤ m.packet.hdr.ackNum) = true) :
    (s.deliver x now iss n).Reachable FreshAcks := by
  have hw := Reachable.wired hs hi
  refine hs.deliver x now iss n fun k t ce ht hon ↦ ?_
  have he := (s.heard_delivery x now iss n).on hon
  obtain rfl := hw.only x k t ht
  change s.track x = some t at ht
  cases ce with
  | segment now seg data =>
      obtain ⟨m, hm, rfl, -⟩ := he
      refine ⟨fun htakes hst ↦ .inl ?_, fun _ _ _ ↦ trivial⟩
      simp only [ht, Option.all_some, hst, Bool.not_true, Bool.false_or, List.all_eq_true,
        Bool.or_eq_true, Bool.not_eq_true', decide_eq_true_eq] at hall
      refine (hall m hm).resolve_left fun hno ↦ ?_
      exact Bool.false_ne_true (hno.symm.trans htakes.1)
  | _ => trivial

/-- Two segments, the second one sent on the acknowledgement of the first. -/
theorem data_within_advertised_two :
    ∃ s : System, (s.sent .a).map Emission.data = [[], [], [1, 2, 3], [4]] ∧
      ∀ m ∈ s.sent .a, m.data ≠ [] → m.origin ≠ .probe →
        ∃ g ∈ s.sent .b, hasFlag g.flags tcpAck ∧ ¬ hasFlag g.flags tcpRst ∧
          m.seq.toNat + m.data.length ≤
            g.packet.hdr.ackNum.toNat + g.packet.hdr.window.toNat ∧
          (s.intact = true → g ∈ (s.party .b).hist.out) := by
  let k : ConnectionKey := ⟨1, 49152, 2, 80⟩
  let s₁ := (start 0 1000 1 2 80).act .b (.listen 2 80 false)
  let s₂ := ((s₁.deliver .b 0 5000 0).deliver .a 0 0 0).deliver .b 0 0 1
  let s₃ := ((s₂.act .a (.send 0 k [1, 2, 3])).deliver .b 0 0 2).deliver .a 0 0 1
  have h₁ : s₁.Reachable FreshAcks :=
    (reachable_start 0 1000 1 2 80).act .b (.listen 2 80 false) trivial
      (Host.admits_of_call nofun nofun)
  have h₂ : s₂.Reachable FreshAcks :=
    ((h₁.deliver_fresh .b 0 5000 0 (by decide +kernel) (by decide +kernel)).deliver_fresh
      .a 0 0 0 (by decide +kernel) (by decide +kernel)).deliver_fresh
        .b 0 0 1 (by decide +kernel) (by decide +kernel)
  have h₃ : s₃.Reachable FreshAcks :=
    ((h₂.act .a (.send 0 k [1, 2, 3]) trivial (Host.admits_of_call nofun nofun)).deliver_fresh
      .b 0 0 2 (by decide +kernel) (by decide +kernel)).deliver_fresh
        .a 0 0 1 (by decide +kernel) (by decide +kernel)
  have h₄ : (s₃.act .a (.send 0 k [4])).Reachable FreshAcks :=
    h₃.act .a (.send 0 k [4]) trivial (Host.admits_of_call nofun nofun)
  have hdata : ((s₃.act .a (.send 0 k [4])).sent .a).map Emission.data =
      [[], [], [1, 2, 3], [4]] := by decide +kernel
  have hbound := data_within_advertised h₄ .a
  rw [Side.other] at hbound
  exact ⟨_, hdata, hbound⟩

/-- `set_recv_cap` is called during the handshake only. -/
def CapsInHandshake (s : System) (x : Side) : TableEvent → Prop
  | .setRecvCap k _ => ∀ t, (s.host x).tracks k = some t → t.conn.state.handshake = true
  | _ => True

theorem Reachable.deliver_caps (hs : s.Reachable CapsInHandshake) (x : Side) (now : Instant)
    (iss : UInt32) (n : ℕ) : (s.deliver x now iss n).Reachable CapsInHandshake := by
  refine hs.deliver x now iss n ?_
  unfold delivery
  split
  · trivial
  · split <;> trivial

/-- An acknowledgement is delivered once more after a newer one: its window of 10 bytes
is taken with the newer `snd_una`, and 5 bytes more are sent than were ever allowed. -/
theorem exists_data_beyond_advertised :
    ∃ s : System, s.Reachable CapsInHandshake ∧ s.intact = true ∧
      (∀ x, (s.party x).conn.iss.toNat + (s.party x).hist.accepted.length + 2 < 2 ^ 32) ∧
      ∃ m ∈ s.sent .b, m.origin = .queued ∧ m.data.length = 10 ∧
        m.seq.toNat + m.data.length = 100016 ∧
        ∀ g ∈ s.sent .a, g.packet.hdr.ackNum.toNat + g.packet.hdr.window.toNat ≤ 100011 := by
  let ka : ConnectionKey := ⟨1, 49152, 2, 80⟩
  let kb : ConnectionKey := ⟨2, 80, 1, 49152⟩
  let s₁ := ((start 0 1000 1 2 80).act .a (.setRecvCap ka 10)).act .b (.listen 2 80 false)
  let s₂ := ((s₁.deliver .b 0 100000 0).deliver .a 0 0 0).deliver .b 0 0 1
  let s₃ := (s₂.act .b (.send 0 kb [1, 2, 3, 4, 5])).deliver .a 0 0 1
  let s₄ := (s₃.deliver .b 0 0 2).deliver .b 0 0 1
  let s₅ := s₄.act .b (.send 0 kb [6, 7, 8, 9, 10, 11, 12, 13, 14, 15])
  have h₁ : s₁.Reachable CapsInHandshake := by
    refine ((reachable_start 0 1000 1 2 80).act .a (.setRecvCap ka 10) trivial
      fun t ht ↦ ?_).act .b (.listen 2 80 false) trivial trivial
    obtain rfl := Option.some.inj ((track_start 0 1000 1 2 80).symm.trans ht)
    rfl
  have h₂ : s₂.Reachable CapsInHandshake :=
    ((h₁.deliver_caps .b 0 100000 0).deliver_caps .a 0 0 0).deliver_caps .b 0 0 1
  have h₃ : s₃.Reachable CapsInHandshake :=
    (h₂.act .b (.send 0 kb [1, 2, 3, 4, 5]) trivial trivial).deliver_caps .a 0 0 1
  have h₅ : s₅.Reachable CapsInHandshake :=
    ((h₃.deliver_caps .b 0 0 2).deliver_caps .b 0 0 1).act
      .b (.send 0 kb [6, 7, 8, 9, 10, 11, 12, 13, 14, 15]) trivial trivial
  have hi : s₅.intact = true := by decide +kernel
  have hwrap : ∀ x, (s₅.party x).conn.iss.toNat + (s₅.party x).hist.accepted.length + 2 <
      2 ^ 32 := by
    intro x
    cases x <;> decide +kernel
  have hm : (s₅.sent .b).any (fun m ↦ m.origin == .queued && m.data.length == 10 &&
      m.seq.toNat + m.data.length == 100016) = true := by decide +kernel
  have hg : (s₅.sent .a).all (fun g ↦
      g.packet.hdr.ackNum.toNat + g.packet.hdr.window.toNat ≤ 100011) = true := by
    decide +kernel
  simp only [List.any_eq_true, Bool.and_eq_true, beq_iff_eq, List.all_eq_true,
    decide_eq_true_eq] at hm hg
  obtain ⟨m, hmem, ⟨horigin, hlen⟩, hend⟩ := hm
  exact ⟨s₅, h₅, hi, hwrap, m, hmem, horigin, hlen, hend, hg⟩

end System

end MiniTcp
