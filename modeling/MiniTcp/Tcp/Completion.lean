import MiniTcp.Tcp.Delivery
import MiniTcp.Tcp.Silence

/-!
# What was accepted can still be delivered

From every state in which both ends are open, the rest of the stream and the FIN can
be brought to the receiving end although everything sent so far is lost.  No new call
of `send` or `close` is needed: ticks at the sending end, reads at the receiving end
and the arrival of what is sent from now on are enough.
-/

namespace MiniTcp

open Serial TcpConnection

theorem Track.recvBufferCap_step (t : Track) (ce : ConnEvent)
    (hce : ∀ cap, ce ≠ .setRecvCap cap) :
    (t.step ce).conn.recvBufferCap = t.conn.recvBufferCap := by
  refine step_invariant (g := { recvCap := fun _ _ ↦ False })
    (P := fun c _ ↦ c.recvBufferCap = t.conn.recvBufferCap) (fun c c' w a heq hact ↦ ?_) ?_ rfl
  · cases hact with
    | recvCap cap hno => exact hno.elim
    | @ack seg => exact (congrArg Inbound.recvBufferCap (processAck_inbound c seg)).trans heq
    | @receive seg payload =>
        obtain ⟨nxt, buf, ooo, hrec⟩ := receive_eq c seg payload
        rwa [hrec]
    | _ => exact heq
  · cases ce with
    | segment => exact ⟨fun _ ↦ trivial, fun _ _ _ ↦ trivial⟩
    | setRecvCap cap => exact absurd rfl (hce cap)
    | _ => trivial

/-- Nothing was accepted, and a FIN that was asked for still is or was sent. -/
structure Track.Continues (t t' : Track) : Prop where
  beforeFin : t'.beforeFin = t.beforeFin
  unsent : t'.finSent = false → t'.beforeFin = t'.hist.accepted
  wanted : t.conn.pendingClose ∨ t.finSent → t'.conn.pendingClose ∨ t'.finSent

theorem Track.finSent_step (t : Track) (ce : ConnEvent) (h : (t.step ce).finSent = false) :
    t.finSent = false := by
  have hsum : finCount (t.step ce).hist.out = finCount t.hist.out +
      finCount (t.conn.step ce).2.out := finCount_append ..
  simp only [finSent, bne_eq_false_iff_eq] at h ⊢
  omega

theorem Track.Continues.step {t t' : Track} {ce : ConnEvent} (h : t.Continues t')
    (hacc : (t'.conn.step ce).2.accepted = []) : t.Continues (t'.step ce) := by
  have hsame : (t'.step ce).hist.accepted = t'.hist.accepted := by
    change t'.hist.accepted ++ (t'.conn.step ce).2.accepted = _
    rw [hacc, List.append_nil]
  have hbefore : (t'.step ce).beforeFin = t'.beforeFin := by
    change (if t'.finSent then t'.beforeFin else (t'.step ce).hist.accepted) = _
    cases hfin : t'.finSent with
    | true => rfl
    | false => exact hsame.trans (h.unsent hfin).symm
  refine ⟨hbefore.trans h.beforeFin, fun hno ↦ ?_, fun hw ↦ t'.fin_wanted_step ce (h.wanted hw)⟩
  rw [hbefore, hsame, h.unsent (t'.finSent_step ce hno)]

theorem Track.Reachable.continues {g : Guard} {t : Track} (h : t.Reachable g) :
    t.Continues t := by
  refine ⟨rfl, ?_, id⟩
  refine Run.Reaches.invariant
    (P := fun t : Track ↦ t.finSent = false → t.beforeFin = t.hist.accepted) ?_ ?_ h
  · rintro t (⟨now, iss, key, rfl⟩ | ⟨now, iss, key, seg, rfl⟩) -
    · rfl
    · rfl
  · intro t ce _ _ _ hno
    change (if t.finSent then t.beforeFin else _) = _
    rw [t.finSent_step ce hno]
    rfl

namespace Conversation

/-- What end `y` has sent after `c₀`. -/
def sentSince (c c₀ : Conversation) (y : Side) : List Emission :=
  (c.party y).hist.out.drop (c₀.party y).hist.out.length

/-- What can happen after `c₀`, from the instant `τ₀` on, when nobody calls `send` or
`close`: ticks of end `x`, reads at the other end, and arrivals of what was sent after
`c₀`. -/
inductive Onward (c₀ : Conversation) (x : Side) (τ₀ : Instant) : Instant → Conversation → Prop
  | refl : Onward c₀ x τ₀ τ₀ c₀
  | tick {τ now : Instant} {c : Conversation} {t : Track} (h : Onward c₀ x τ₀ τ c)
      (hle : τ ≤ now) (ht : c.track x = some t)
      (hopen : (t.step (.tick now)).conn.state ≠ .closed) :
      Onward c₀ x τ₀ now (c.move (x, t.step (.tick now)))
  | recv {τ : Instant} {c : Conversation} {u : Track} (len : ℕ) (h : Onward c₀ x τ₀ τ c)
      (hu : c.track x.other = some u) :
      Onward c₀ x τ₀ τ (c.move (x.other, u.step (.recv len)))
  | arrive {τ now : Instant} {c : Conversation} {t : Track} {m : Emission} (y : Side)
      (h : Onward c₀ x τ₀ τ c) (hle : τ ≤ now) (ht : c.track y = some t)
      (hm : m ∈ c.sentSince c₀ y.other)
      (hopen : (t.step (.segment now m.parsed m.data)).conn.state ≠ .closed) :
      Onward c₀ x τ₀ now (c.move (y, t.step (.segment now m.parsed m.data)))

variable {c c₀ : Conversation} {x y : Side} {τ τ₀ : Instant} {t u : Track} {m : Emission}

theorem out_prefix_move {ce : ConnEvent} (ht : c.track x = some t) (y : Side) :
    (c.party y).hist.out <+: ((c.move (x, t.step ce)).party y).hist.out := by
  rcases x.eq_or_eq_other y with rfl | rfl
  · rw [party_move_self, party_of_track ht]
    exact List.prefix_append _ _
  · rw [party_move_other]

theorem Onward.out_prefix (h : Onward c₀ x τ₀ τ c) (y : Side) :
    (c₀.party y).hist.out <+: (c.party y).hist.out := by
  induction h with
  | refl => exact List.prefix_refl _
  | tick _ _ ht _ ih | recv _ _ ht ih | arrive _ _ _ ht _ _ ih =>
      exact ih.trans (out_prefix_move ht y)

theorem Onward.mem_sentSince {ce : ConnEvent} (h : Onward c₀ x τ₀ τ c) (ht : c.track y = some t)
    (hm : m ∈ (t.conn.step ce).2.out) : m ∈ (c.move (y, t.step ce)).sentSince c₀ y := by
  have hle := (h.out_prefix y).length_le
  rw [party_of_track ht] at hle
  rw [sentSince, party_move_self]
  change m ∈ (t.hist.out ++ (t.conn.step ce).2.out).drop _
  rw [List.drop_append_of_le_length hle]
  exact List.mem_append_right _ hm

theorem sentSince_move_other : (c.move (x, t)).sentSince c₀ x.other = c.sentSince c₀ x.other := by
  rw [sentSince, party_move_other, sentSince]

theorem Onward.continues (h : Onward c₀ x τ₀ τ c) (ht : c₀.track y = some t)
    (hself : t.Continues t) : ∃ t', c.track y = some t' ∧ t.Continues t' := by
  have hmove {c : Conversation} {z : Side} {t₁ : Track} {ce : ConnEvent}
      (ht₁ : c.track z = some t₁) (hacc : (t₁.conn.step ce).2.accepted = [])
      (ih : ∃ t', c.track y = some t' ∧ t.Continues t') :
      ∃ t', (c.move (z, t₁.step ce)).track y = some t' ∧ t.Continues t' := by
    obtain ⟨t', ht', hcont⟩ := ih
    rcases z.eq_or_eq_other y with rfl | rfl
    · obtain rfl := Option.some.inj (ht'.symm.trans ht₁)
      exact ⟨_, track_move_self, hcont.step hacc⟩
    · exact ⟨t', track_move_other.trans ht', hcont⟩
  induction h with
  | refl => exact ⟨t, ht, hself⟩
  | tick _ _ ht₁ _ ih | recv _ _ ht₁ ih | arrive _ _ _ ht₁ _ _ ih => exact hmove ht₁ rfl ih

/-- The sum that every round raises. -/
def reach (t : Track) : ℕ := t.conn.sndUna.toNat + t.conn.sndNxt.toNat

def HasRetries (t : Track) : Prop := ∀ v ∈ t.conn.retransmitQueue, v.retryCount < maxRetries

/-- The result of a round that started with the ends `t` and `u`. -/
def Round (c₀ : Conversation) (x : Side) (τ₀ : Instant) (t u : Track) : Prop :=
  ∃ τ c t' u', Onward c₀ x τ₀ τ c ∧ Alive c x t' u' ∧
    u'.conn.recvBufferCap = u.conn.recvBufferCap ∧
    (u'.hist.fin = false → HasRetries t' ∧ reach t < reach t')

/-- The timer, the repeated segment and its acknowledgement. -/
theorem Onward.resend_round (hon : Onward c₀ x τ₀ τ c) (h : Alive c x t u)
    (hfin : u.hist.fin = false) (hleft : HasRetries t) (hq : t.conn.retransmitQueue ≠ []) :
    Round c₀ x τ₀ t u := by
  obtain ⟨front, rest, hq⟩ := List.exists_cons_of_ne_nil hq
  have hmem : front ∈ t.conn.retransmitQueue := by
    rw [hq]
    exact List.mem_cons_self
  let now : Instant := max τ (front.sentAt + front.rto)
  have hdue : front.rto ≤ now - front.sentAt :=
    Nat.le_sub_of_add_le' (Nat.le_max_right _ _)
  obtain ⟨hbefore, hbeyond, -⟩ := h.front_spec hq
  obtain ⟨h₁, huna₁, hqueue₁, m, hm, hseq, hlen, hcurrent⟩ :=
    h.resends hfin hq hdue (hleft front hmem)
  have hon₁ := hon.tick (Nat.le_max_left _ _ : τ ≤ now) h.sender h₁.sending
  have h₂ := h₁.receives hfin hcurrent now
  have hfresh : m ∈ (c.move (x, t.step (.tick now))).sentSince c₀ x.other.other := by
    rw [Side.other_other]
    exact hon.mem_sentSince h.sender hm
  have hon₂ := hon₁.arrive x.other (Nat.le_refl now) h₁.receiver hfresh h₂.receiving
  have hcap := u.recvBufferCap_step (.segment now m.parsed m.data) nofun
  cases hfin₂ : (u.step (.segment now m.parsed m.data)).hist.fin with
  | true =>
      refine ⟨now, _, _, _, hon₂, h₂, hcap, fun hno ↦ ?_⟩
      rw [hfin₂] at hno
      cases hno
  | false =>
      obtain ⟨m', hm', hflags, hnum, -⟩ := h₁.answers hfin hcurrent now
      obtain ⟨h₃, huna₃, hqueue₃⟩ :=
        h₂.acknowledged hfin₂ (List.mem_append_right _ hm') hflags hnum now
      have hon₃ := hon₂.arrive x (Nat.le_refl now) h₂.sender
        (hon₁.mem_sentSince h₁.receiver hm') h₃.sending
      have hend := h₁.end_le hfin hcurrent
        (by rw [hseq]; exact hbefore.trans (huna₁ ▸ h₁.una_le.2)) now
      rw [hseq, hlen, ← huna₃] at hend
      refine ⟨now, _, _, _, hon₃, h₃, hcap, fun _ ↦ ⟨fun v hv ↦ ?_, ?_⟩⟩
      · have hzero : 0 < maxRetries := by decide
        rcases hqueue₃ v hv with hv₁ | hfirst
        · rcases hqueue₁ v hv₁ with rfl | hrest | hfirst
          · -- the front is acknowledged
            have hreaches := h₃.queueAt.reaches _ hv
            exact absurd hend (Nat.not_le.mpr hreaches)
          · exact hleft v (by rw [hq]; exact List.mem_cons_of_mem _ hrest)
          · rw [hfirst]
            exact hzero
        · rw [hfirst]
          exact hzero
      · have hle₁ := h.next_le h₁
        have hle₃ := h₂.next_le h₃
        unfold reach
        omega

/-- The window is open: the next tick sends. -/
theorem Onward.flush_round (hon : Onward c₀ x τ₀ τ c) (h : Alive c x t u)
    (hfin : u.hist.fin = false) (hq : t.conn.retransmitQueue = [])
    (hne : t.conn.sendPending ≠ []) (hwnd : t.conn.sndWnd ≠ 0) : Round c₀ x τ₀ t u := by
  obtain ⟨huna, -, hst, -⟩ := h.idle hfin hq
  have htw : t.conn.state ≠ .timeWait := by
    intro htw
    rw [htw] at hst
    cases hst
  obtain ⟨hopen, huna₁, hqueue⟩ := tick_idle τ htw hq
  have h₁ := h.sender_step (hears_tick c x τ) rfl fun hc ↦ h.sending (hopen hc)
  have hlt := h.next_lt h₁ hst rfl (tick_shrinks hst hq huna hwnd hne)
  refine ⟨τ, _, _, _, hon.tick (Nat.le_refl τ) h.sender h₁.sending, h₁, rfl,
    fun _ ↦ ⟨fun v hv ↦ ?_, ?_⟩⟩
  · rw [hqueue v hv]
    decide
  · have hsame : (t.step (.tick τ)).conn.sndUna = t.conn.sndUna := huna₁
    unfold reach
    rw [hsame]
    omega

/-- Once everything is read, the receiving end has an open window to announce. -/
theorem Onward.read (hon : Onward c₀ x τ₀ τ c) (h : Alive c x t u) (hfin : u.hist.fin = false)
    (hcap : 0 < u.conn.recvBufferCap) (hq : t.conn.retransmitQueue = []) :
    ∃ c' u', Onward c₀ x τ₀ τ c' ∧ Alive c' x t u' ∧ u'.hist.fin = false ∧
      u'.conn.recvBufferCap = u.conn.recvBufferCap ∧ u'.conn.advertiseWindow ≠ 0 := by
  refine ⟨_, _, hon.recv u.conn.recvBuffer.length h.receiver,
    h.receiver_step (hears_recv c x.other _) rfl h.receiving, ?_, rfl,
    advertiseWindow_ne_zero ?_ hcap⟩
  · change (u.hist.fin || false) = false
    rw [hfin, Bool.or_false]
  · change (u.conn.recvBuffer.drop (min _ _)).length + u.conn.oooBuffer.weight List.length = 0
    rw [h.ooo_of_idle hfin hq, Nat.min_self, List.drop_length]
    rfl

/-- The first tick arms the persist timer, the second one finds it run out. -/
theorem Onward.probe (hon : Onward c₀ x τ₀ τ c) (h : Alive c x t u)
    (hst : t.conn.state.sends) (hq : t.conn.retransmitQueue = [])
    (hwnd : t.conn.sndWnd = 0) (hne : t.conn.sendPending ≠ []) :
    ∃ now c' t' m, Onward c₀ x τ₀ now c' ∧ Alive c' x t' u ∧
      (∃ d rto, t'.conn = { t.conn with probeDeadline := d, probeRto := rto }) ∧
      m ∈ c'.sentSince c₀ x ∧ m.seq = t'.conn.sndUna - 1 ∧ Alive.Current t' m := by
  obtain ⟨h₁, ⟨d, rto, hconn₁⟩, -⟩ := h.probes hst hq hwnd hne τ
  have hon₁ := hon.tick (Nat.le_refl τ) h.sender h₁.sending
  obtain ⟨h₂, ⟨d', rto', hconn₂⟩, hprobe⟩ := h₁.probes (by rwa [hconn₁]) (by rwa [hconn₁])
    (by rwa [hconn₁]) (by rwa [hconn₁]) (max τ d)
  have hon₂ := hon₁.tick (Nat.le_max_left τ d) h₁.sender h₂.sending
  obtain ⟨m, hm, hseq, hcurrent⟩ := hprobe d (by rw [hconn₁]) (Nat.le_max_right τ d)
  refine ⟨_, _, _, m, hon₂, h₂, ⟨some d', rto', by rw [hconn₂, hconn₁]⟩,
    hon₁.mem_sentSince h₁.sender hm, ?_, hcurrent⟩
  rw [hseq, hconn₂]

/-- The answer to a probe opens the window. -/
theorem Onward.answer_round (hon : Onward c₀ x τ₀ τ c) (h : Alive c x t u)
    (hfin : u.hist.fin = false) (hq : t.conn.retransmitQueue = [])
    (hne : t.conn.sendPending ≠ []) (hwnd : u.conn.advertiseWindow ≠ 0)
    (hfresh : m ∈ c.sentSince c₀ x) (hseq : m.seq = t.conn.sndUna - 1)
    (hm : Alive.Current t m) : Round c₀ x τ₀ t u := by
  obtain ⟨huna, -, hst, -⟩ := h.idle hfin hq
  have h₁ := h.receives hfin hm τ
  have hon₁ := hon.arrive x.other (Nat.le_refl τ) h.receiver
    (by rwa [Side.other_other]) h₁.receiving
  obtain ⟨hfin₁, hnxt, hopen⟩ := h.probed hfin hq hm hseq hwnd τ
  obtain ⟨m', hm', hflags, hnum, hwindow⟩ := h.answers hfin hm τ
  obtain ⟨h₂, huna₂, hqueue₂⟩ :=
    h₁.acknowledged hfin₁ (List.mem_append_right _ hm') hflags hnum τ
  have hon₂ := hon₁.arrive x (Nat.le_refl τ) h₁.sender
    (hon.mem_sentSince h.receiver hm') h₂.sending
  refine ⟨τ, _, _, _, hon₂, h₂, u.recvBufferCap_step _ nofun, fun _ ↦ ⟨fun v hv ↦ ?_, ?_⟩⟩
  · rcases hqueue₂ v hv with hold | hzero
    · rw [hq] at hold
      cases hold
    · rw [hzero]
      decide
  · have hack : hasFlag m'.parsed.flags tcpAck := by
      change hasFlag m'.flags tcpAck
      rw [hflags]
      decide
    have hrst : ¬ hasFlag m'.parsed.flags tcpRst := by
      change ¬ hasFlag m'.flags tcpRst
      rw [hflags]
      decide
    have hlt := h.next_lt h₂ hst rfl (processSegment_shrinks hst hne
      (by rw [huna]) hack hrst (hnum.trans hnxt) (by rwa [← hwindow] at hopen))
    rw [hnxt, ← huna] at huna₂
    unfold reach
    rw [huna₂]
    omega

theorem Onward.probe_round (hon : Onward c₀ x τ₀ τ c) (h : Alive c x t u)
    (hfin : u.hist.fin = false) (hcap : 0 < u.conn.recvBufferCap)
    (hq : t.conn.retransmitQueue = []) (hne : t.conn.sendPending ≠ [])
    (hwnd : t.conn.sndWnd = 0) : Round c₀ x τ₀ t u := by
  obtain ⟨-, -, hst, -⟩ := h.idle hfin hq
  obtain ⟨c₁, u₁, hon₁, h₁, hfin₁, hcap₁, hopen⟩ := hon.read h hfin hcap hq
  obtain ⟨now, c₂, t₂, m, hon₂, h₂, ⟨d, rto, hconn⟩, hfresh, hseq, hm⟩ :=
    hon₁.probe h₁ hst hq hwnd hne
  obtain ⟨τ', c', t', u', hon', h', hcap', hround⟩ := hon₂.answer_round h₂ hfin₁
    (by rwa [hconn]) (by rwa [hconn]) hopen hfresh hseq hm
  refine ⟨τ', c', t', u', hon', h', hcap'.trans hcap₁, fun hno ↦ ?_⟩
  obtain ⟨hleft, hlt⟩ := hround hno
  refine ⟨hleft, ?_⟩
  unfold reach at hlt ⊢
  rwa [hconn] at hlt

/-- One of the three rounds is possible until everything is delivered. -/
theorem Onward.round (hon : Onward c₀ x τ₀ τ c) (h : Alive c x t u)
    (hleft : HasRetries t) (hcap : 0 < u.conn.recvBufferCap) (hfin : u.hist.fin = false)
    (howes : t.conn.retransmitQueue ≠ [] ∨ t.conn.sendPending ≠ []) : Round c₀ x τ₀ t u := by
  by_cases hq : t.conn.retransmitQueue = []
  · have hne := howes.resolve_left (not_not.mpr hq)
    by_cases hwnd : t.conn.sndWnd = 0
    · exact hon.probe_round h hfin hcap hq hne hwnd
    · exact hon.flush_round h hfin hq hne hwnd
  · exact hon.resend_round h hfin hleft hq

/-! ## Until everything is delivered -/

/-- The two ends at the end of a round. -/
structure Stage where
  now : Instant
  conv : Conversation
  sender : Track
  receiver : Track

namespace Stage

def Held (c₀ : Conversation) (x : Side) (τ₀ : Instant) (s : Stage) : Prop :=
  Onward c₀ x τ₀ s.now s.conv ∧ Alive s.conv x s.sender s.receiver ∧
    0 < s.receiver.conn.recvBufferCap ∧ (s.receiver.hist.fin = false → HasRetries s.sender)

def Done (s : Stage) : Prop :=
  s.receiver.hist.fin = true ∨
    s.sender.conn.retransmitQueue = [] ∧ s.sender.conn.sendPending = []

theorem Held.next {s : Stage} (h : Held c₀ x τ₀ s) (hnot : ¬ s.Done) :
    ∃ s', Held c₀ x τ₀ s' ∧ (s'.Done ∨ 2 ^ 33 - reach s'.sender < 2 ^ 33 - reach s.sender) := by
  obtain ⟨hon, halive, hcap, hleft⟩ := h
  have hfin : s.receiver.hist.fin = false := by
    by_contra hne
    exact hnot (.inl (by simpa using hne))
  have howes : s.sender.conn.retransmitQueue ≠ [] ∨ s.sender.conn.sendPending ≠ [] := by
    by_contra hno
    rw [not_or, not_not, not_not] at hno
    exact hnot (.inr hno)
  obtain ⟨τ', c', t', u', hon', h', hcap', hround⟩ :=
    hon.round halive (hleft hfin) hcap hfin howes
  refine ⟨⟨τ', c', t', u'⟩, ⟨hon', h', hcap'.symm ▸ hcap, fun hno ↦ (hround hno).1⟩, ?_⟩
  cases hfin' : u'.hist.fin with
  | true => exact .inl (.inl hfin')
  | false =>
      have hlt := (hround hfin').2
      have huna := t'.conn.sndUna.toNat_lt
      have hnxt := t'.conn.sndNxt.toNat_lt
      refine .inr ?_
      change 2 ^ 33 - reach t' < _
      have hbound : reach t' < 2 ^ 33 := by
        unfold reach
        omega
      omega

end Stage

theorem Alive.delivers (h : Alive c x t u) (hleft : HasRetries t)
    (hcap : 0 < u.conn.recvBufferCap) (τ : Instant) :
    ∃ τ' c' t' u', Onward c x τ τ' c' ∧ Alive c' x t' u' ∧
      (u'.hist.fin = true ∨ t'.conn.retransmitQueue = [] ∧ t'.conn.sendPending = []) := by
  obtain ⟨s, ⟨hon, halive, -⟩, hdone⟩ := Run.exists_of_decreasing
    (S := Stage.Held c x τ) (G := Stage.Done) (fun s hs hnot ↦ Stage.Held.next hs hnot)
    (s := ⟨τ, c, t, u⟩) ⟨.refl, h, hcap, fun _ ↦ hleft⟩
  exact ⟨s.now, s.conv, s.sender, s.receiver, hon, halive, hdone⟩

/-- Everything that was accepted before the FIN reaches the other end, and the FIN
does, too, if it was asked for. -/
theorem Alive.delivers_all (h : Alive c x t u) (hleft : HasRetries t)
    (hcap : 0 < u.conn.recvBufferCap) (τ : Instant) :
    ∃ τ' c', Onward c x τ τ' c' ∧ (c'.party x.other).received = t.beforeFin ∧
      (t.conn.pendingClose ∨ t.finSent → (c'.party x.other).hist.fin = true) := by
  obtain ⟨τ', c', t', u', hon, h', hdone⟩ := h.delivers hleft hcap τ
  obtain ⟨t₂, ht₂, hcont⟩ := hon.continues h.sender h.sender_live.continues
  obtain rfl := Option.some.inj (h'.sender.symm.trans ht₂)
  refine ⟨τ', c', hon, ?_⟩
  rw [party_of_track h'.receiver, ← hcont.beforeFin]
  cases hfin : u'.hist.fin with
  | true =>
      have hrec := (h'.fits.received x).2
      rw [party_of_track h'.receiver, party_of_track h'.sender] at hrec
      exact ⟨hrec hfin, fun _ ↦ rfl⟩
  | false =>
      obtain ⟨hq, hpend⟩ := hdone.resolve_left (by simp [hfin])
      obtain ⟨-, -, hst, hrec⟩ := h'.idle hfin hq
      have hsnd := h'.sender_live.sndInv
      have hunsent : t'.finSent = false := by
        rw [Track.finSent, hsnd.finCount_of_sends hst]
        rfl
      refine ⟨?_, fun hw ↦ ?_⟩
      · rw [hrec, hcont.unsent hunsent, ← hsnd.pending, hpend, List.append_nil]
      · rcases hcont.wanted hw with hclose | hsent
        · exact absurd hpend (h'.sender_live.pendingClose hclose).1
        · rw [hunsent] at hsent
          cases hsent

end Conversation

/-! ## On a network -/

namespace Host

variable {h : Host} {k : ConnectionKey} {e : TableEvent} {ce : ConnEvent} {t : Track}

theorem opened_of_track (ht : h.tracks k = some t) (hon : e.on k = some ce) :
    e.opened h.table k = none := by
  cases TableEvent.on_cases hon with
  | segment hseg hkey =>
      rw [TableEvent.opened, hseg]
      dsimp only
      rw [if_neg]
      rintro ⟨-, hnone, -⟩
      rw [lookup_of_track ht] at hnone
      cases hnone
  | _ => rfl

end Host

/-- What a connection sends passes the checks of the receive path. -/
theorem Emission.arrives {m : Emission} (h : m.data.length ≤ mss) :
    ∃ ipHdr, parseIpHeader m.packet.bytes = some ipHdr ∧
      ipHdr.dstAddr = m.source.remoteAddr ∧
      TcpTable.acceptedSegment ipHdr (m.packet.bytes.drop (ipHdr.ihl.toNat * 4)) =
        some (m.parsed, m.data) ∧
      TcpTable.segmentKey ipHdr m.parsed = m.source.mirror := by
  obtain ⟨ipHdr, hparse, hsrc, hdst, hdrop⟩ := m.packet.parse_bytes
  have hsum := Packet.tcpChecksum_segment (h.trans (by decide : mss ≤ 131042))
  refine ⟨ipHdr, hparse, hdst, ?_, ?_⟩
  · rw [hdrop, TcpTable.acceptedSegment, Packet.length_segment, if_neg (by omega),
      Packet.parse_segment]
    dsimp only
    rw [hsrc, hdst, hsum, if_neg (by simp), Packet.drop_segment]
    rfl
  · rw [TcpTable.segmentKey, hsrc, hdst]
    rfl

namespace Network

variable {ι : Type} [DecidableEq ι] {owner : UInt32 → ι} {n n₀ : Network ι}
  {k : ConnectionKey} {x : Side} {t u : Track}

/-- The arrival of a packet is the arrival of its segment at the host it is addressed to. -/
theorem deliver_eq {idx : ℕ} {m : Emission} (owner : UInt32 → ι) (n : Network ι)
    (now : Instant) (iss : UInt32) (hm : n.sent[idx]? = some m) (hdata : m.data.length ≤ mss) :
    ∃ ipHdr payload, n.deliver owner now iss idx =
        n.act (owner m.source.remoteAddr) (.segment now iss ipHdr payload) ∧
      (TableEvent.segment now iss ipHdr payload).Arrives owner n.sent
        (owner m.source.remoteAddr) ∧
      TcpTable.acceptedSegment ipHdr payload = some (m.parsed, m.data) ∧
      TcpTable.segmentKey ipHdr m.parsed = m.source.mirror := by
  obtain ⟨ipHdr, hparse, hdst, hacc, hkey⟩ := Emission.arrives hdata
  refine ⟨ipHdr, m.packet.bytes.drop (ipHdr.ihl.toNat * 4), ?_, ?_, hacc, hkey⟩
  · unfold deliver
    rw [hm]
    dsimp only
    rw [hparse]
    dsimp only
    rw [hdst]
  · exact ⟨m, List.mem_of_getElem? hm, hparse, rfl, by rw [hdst]⟩

/-- What can happen after `n₀`, from the instant `τ₀` on, for the connection `k` to send
the rest of its stream: ticks of its host, reads at the other end, and arrivals of
packets that were sent after `n₀`. -/
inductive Onward (owner : UInt32 → ι) (k : ConnectionKey) (n₀ : Network ι) (τ₀ : Instant) :
    Instant → Network ι → Prop
  | refl : Onward owner k n₀ τ₀ τ₀ n₀
  | tick {τ now : Instant} {n : Network ι} (h : Onward owner k n₀ τ₀ τ n) (hle : τ ≤ now) :
      Onward owner k n₀ τ₀ now (n.act (owner k.localAddr) (.tick now))
  | recv {τ : Instant} {n : Network ι} (len : ℕ) (h : Onward owner k n₀ τ₀ τ n) :
      Onward owner k n₀ τ₀ τ (n.act (owner k.remoteAddr) (.recv k.mirror len))
  | arrive {τ now : Instant} {n : Network ι} (iss : UInt32) (idx : ℕ)
      (h : Onward owner k n₀ τ₀ τ n) (hle : τ ≤ now) (hidx : n₀.sent.length ≤ idx) :
      Onward owner k n₀ τ₀ now (n.deliver owner now iss idx)

/-- The link `k` of the network is the conversation, both ends are in their tables, and
what they have sent is on the network. -/
structure Follows (owner : UInt32 → ι) (k : ConnectionKey) (n₀ : Network ι) (c₀ : Conversation)
    (n : Network ι) (c : Conversation) : Prop where
  reached : n.Reached owner
  link : n.link k = c
  tracks : ∀ x, ∃ t, (n.host (owner (k.side x).localAddr)).tracks (k.side x) = some t ∧
    t.conn.state ≠ .closed
  sent : ∀ x, ∀ m ∈ c.sentSince c₀ x, m ∈ n.sent.drop n₀.sent.length
  grown : n₀.sent.length ≤ n.sent.length

variable {c c₀ : Conversation} {e : TableEvent} {ce : ConnEvent}

theorem Follows.track (h : Follows owner k n₀ c₀ n c) (ht : c.track x = some t) :
    (n.host (owner (k.side x).localAddr)).tracks (k.side x) = some t ∧
      t.conn.state ≠ .closed := by
  obtain ⟨t', ht', hopen⟩ := h.tracks x
  have hlife := (h.reached.kept.place _ _ _ ht').2
  have hsame : n.life (k.side x) = some t := by
    rw [← h.link] at ht
    exact ht
  obtain rfl := Option.some.inj (hlife.symm.trans hsame)
  exact ⟨ht', hopen⟩

theorem Follows.act (h : Follows owner k n₀ c₀ n c)
    (hdiff : owner (k.side x.other).localAddr ≠ owner (k.side x).localAddr)
    (he : e.Arrives owner n.sent (owner (k.side x).localAddr)) (ht : c.track x = some t)
    (hon : e.on (k.side x) = some ce) (hopen : (t.step ce).conn.state ≠ .closed) :
    Follows owner k n₀ c₀ (n.act (owner (k.side x).localAddr) e) (c.move (x, t.step ce)) := by
  have hkept := h.reached.kept
  obtain ⟨htrack, -⟩ := h.track ht
  have hself : (n.act (owner (k.side x).localAddr) e).life (k.side x) = some (t.step ce) := by
    change (Host.lived _ e (k.side x)).or _ = _
    rw [Host.lived_of_track (Host.opened_of_track htrack hon) htrack, hon, Option.some_or]
    rfl
  have hother : (n.act (owner (k.side x).localAddr) e).life (k.side x.other) =
      c.track x.other := by
    rw [← h.link]
    rcases hkept.life_act (owner (k.side x).localAddr) e (k.side x.other) with
      ⟨hsame, -⟩ | ⟨t', hopened, -⟩ | ⟨t', -, ht', -⟩
    · exact hsame
    · exact absurd (he.opened hopened).1 hdiff
    · exact absurd (hkept.place _ _ _ ht').1 hdiff
  have hlife (y : Side) : (n.act (owner (k.side x).localAddr) e).life (k.side y) =
      (c.move (x, t.step ce)).track y := by
    rcases x.eq_or_eq_other y with rfl | rfl
    · exact hself.trans Conversation.track_move_self.symm
    · exact hother.trans Conversation.track_move_other.symm
  refine ⟨h.reached.act _ e he, link_eq_of_life (hlife .a) (hlife .b), fun y ↦ ?_,
    fun y m hm ↦ ?_, ?_⟩
  · rcases x.eq_or_eq_other y with rfl | rfl
    · refine ⟨t.step ce, ?_, hopen⟩
      rw [host_act_self]
      have hafter := Host.tracks_of_open htrack (Host.opened_of_track htrack hon)
      rw [hon] at hafter
      exact hafter hopen
    · rw [host_act_of_ne n e hdiff]
      exact h.tracks _
  · change m ∈ (n.sent ++ _).drop _
    rw [List.drop_append_of_le_length h.grown]
    rcases x.eq_or_eq_other y with rfl | rfl
    · rw [Conversation.sentSince, Conversation.party_move_self] at hm
      change m ∈ (t.hist.out ++ (t.conn.step ce).2.out).drop _ at hm
      rw [List.drop_append] at hm
      rcases List.mem_append.mp hm with hm | hm
      · refine List.mem_append_left _ (h.sent y m ?_)
        rwa [Conversation.sentSince, Conversation.party_of_track ht]
      · refine List.mem_append_right _ (Host.mem_out_of_emits htrack ?_)
        rw [hon]
        exact List.mem_of_mem_drop hm
    · rw [Conversation.sentSince_move_other] at hm
      exact List.mem_append_left _ (h.sent _ m hm)
  · change _ ≤ (n.sent ++ _).length
    rw [List.length_append]
    exact h.grown.trans (Nat.le_add_right _ _)

/-- A packet that was sent after `n₀` arrives. -/
theorem Follows.arrive {m : Emission} (h : Follows owner k n₀ c₀ n c)
    (hdiff : owner (k.side x.other).localAddr ≠ owner (k.side x).localAddr)
    (ht : c.track x = some t) (hm : m ∈ c.sentSince c₀ x.other) (now : Instant)
    (hopen : (t.step (.segment now m.parsed m.data)).conn.state ≠ .closed) :
    ∃ idx, n₀.sent.length ≤ idx ∧ Follows owner k n₀ c₀ (n.deliver owner now 0 idx)
      (c.move (x, t.step (.segment now m.parsed m.data))) := by
  obtain ⟨j, hj⟩ := List.mem_iff_getElem?.mp (h.sent _ m hm)
  rw [List.getElem?_drop] at hj
  obtain ⟨u, hu, -⟩ := h.tracks x.other
  have hlife := (h.reached.kept.place _ _ _ hu).2
  obtain ⟨hlive, hkey⟩ := h.reached.kept.live _ _ hlife
  have hout : m ∈ u.hist.out := by
    rw [← h.link, Conversation.sentSince, party_link, party_of_life hlife] at hm
    exact List.mem_of_mem_drop hm
  have hsource : m.source = k.side x.other := (hlive.source m hout).trans hkey
  have hmirror : m.source.mirror = k.side x := by
    rw [hsource, ← ConnectionKey.side_other, Side.other_other]
  have hlocal : m.source.remoteAddr = (k.side x).localAddr :=
    congrArg ConnectionKey.localAddr hmirror
  obtain ⟨ipHdr, payload, hdeliver, harrives, hacc, hsegment⟩ :=
    deliver_eq owner n now 0 hj (hlive.wire.2 m hout).2
  rw [hlocal] at hdeliver harrives
  refine ⟨n₀.sent.length + j, Nat.le_add_right _ _, ?_⟩
  rw [hdeliver]
  refine h.act hdiff harrives ht ?_ hopen
  rw [TableEvent.on, hacc]
  dsimp only
  rw [if_pos (hsegment.trans hmirror)]

/-- Every continuation of the conversation is one of the network. -/
theorem Follows.onward {τ τ₀ : Instant} (hstart : Follows owner k n₀ c₀ n₀ c₀)
    (hdiff : owner k.localAddr ≠ owner k.remoteAddr)
    (h : Conversation.Onward c₀ .a τ₀ τ c) :
    ∃ n, n₀.Onward owner k τ₀ τ n ∧ Follows owner k n₀ c₀ n c := by
  have hside (x : Side) :
      owner (k.side x.other).localAddr ≠ owner (k.side x).localAddr := by
    cases x with
    | a => exact Ne.symm hdiff
    | b => exact hdiff
  induction h with
  | refl => exact ⟨n₀, .refl, hstart⟩
  | tick _ hle ht hopen ih =>
      obtain ⟨n, hon, hfollows⟩ := ih
      exact ⟨_, hon.tick hle, hfollows.act (x := .a) (hside .a) trivial ht rfl hopen⟩
  | recv len _ hu ih =>
      obtain ⟨n, hon, hfollows⟩ := ih
      exact ⟨_, hon.recv len, hfollows.act (x := .b) (e := .recv k.mirror len) (hside .b) trivial hu
        (if_pos rfl) (hfollows.track hu).2⟩
  | arrive y _ hle ht hm hopen ih =>
      obtain ⟨n, hon, hfollows⟩ := ih
      obtain ⟨idx, hidx, hnext⟩ := hfollows.arrive (hside y) ht hm _ hopen
      exact ⟨_, hon.arrive 0 idx hle hidx, hnext⟩

/-- Both ends are open and everything on the way may be lost: without a further `send` or
`close`, by ticks of the sending host, reads at the other end and the packets that are sent
from now on, everything that was accepted before the FIN is delivered, and the FIN as well if
it was asked for. -/
theorem rest_can_be_delivered (hn : n.Reached owner) (ha : n.born k ≤ 1)
    (hb : n.born k.mirror ≤ 1) (hdiff : owner k.localAddr ≠ owner k.remoteAddr)
    (ht : (n.host (owner k.localAddr)).tracks k = some t)
    (hu : (n.host (owner k.remoteAddr)).tracks k.mirror = some u)
    (hst : t.conn.state.synchronized) (hopen : u.conn.state ≠ .closed)
    (hw : t.conn.iss.toNat + t.hist.accepted.length + 2 < 2 ^ 32)
    (hw' : u.conn.iss.toNat + u.hist.accepted.length + 2 < 2 ^ 32)
    (hleft : ∀ v ∈ t.conn.retransmitQueue, v.retryCount < maxRetries)
    (hcap : 0 < u.conn.recvBufferCap) (τ : Instant) :
    ∃ τ' n', n.Onward owner k τ τ' n' ∧ (n'.party k.mirror).received = t.beforeFin ∧
      (t.conn.pendingClose ∨ t.finSent → (n'.party k.mirror).hist.fin = true) := by
  have hlife := (hn.kept.place _ _ _ ht).2
  have hlife' := (hn.kept.place _ _ _ hu).2
  have hstate : t.conn.state.handshake = false ∧ t.conn.state ≠ .closed := by
    cases hs : t.conn.state <;> simp_all [TcpState.synchronized, TcpState.handshake]
  have halive : Conversation.Alive (n.link k) .a t u :=
    { reached := hn.link k ha hb
      noWrap := noWrap_link (by rwa [party_of_life hlife]) (by rwa [party_of_life hlife'])
      sender := hlife
      receiver := hlife'
      past := hstate.1
      sending := hstate.2
      receiving := hopen }
  obtain ⟨τ', c', hon, hrec, hfin⟩ := halive.delivers_all hleft hcap τ
  have hstart : Follows owner k n (n.link k) n (n.link k) := by
    refine ⟨hn, rfl, fun x ↦ ?_, fun x m hm ↦ ?_, Nat.le_refl _⟩
    · cases x with
      | a => exact ⟨t, ht, hstate.2⟩
      | b => exact ⟨u, hu, hopen⟩
    · rw [Conversation.sentSince, List.drop_length] at hm
      cases hm
  obtain ⟨n', hon', hfollows⟩ := hstart.onward hdiff hon
  refine ⟨τ', n', hon', ?_⟩
  rw [← hfollows.link] at hrec hfin
  exact ⟨hrec, hfin⟩

/-- Three bytes and the FIN were sent and are lost. -/
theorem rest_can_be_delivered_lost :
    ∃ (owner : UInt32 → Bool) (n n' : Network Bool) (k : ConnectionKey) (τ : Instant),
      n.Reached owner ∧ (n.party k.mirror).received = [] ∧ n.Onward owner k 7 τ n' ∧
        (n'.party k.mirror).received = [1, 2, 3] ∧ (n'.party k.mirror).hist.fin = true := by
  let owner (addr : UInt32) : Bool := addr == 2
  let k : ConnectionKey := ⟨1, 49152, 2, 80⟩
  let n₁ : Network Bool := ((start.act true (.listen 2 80 false)).act false
    (.connect 0 1000 1 2 80)).deliver owner 0 5000 0
  let n := ((n₁.deliver owner 0 0 1).act false (.send 0 k [1, 2, 3])).act false (.close 0 k)
  have h₁ : n₁.Reached owner :=
    (((reached_start owner).act true (.listen 2 80 false) trivial).act false
      (.connect 0 1000 1 2 80) rfl).deliver 0 5000 0
  have hn : n.Reached owner :=
    ((h₁.deliver 0 0 1).act false (.send 0 k [1, 2, 3]) trivial).act false (.close 0 k) trivial
  obtain ⟨t, ht⟩ : ∃ t, (n.host false).tracks k = some t :=
    Option.isSome_iff_exists.mp (by decide +kernel)
  obtain ⟨u, hu⟩ : ∃ u, (n.host true).tracks k.mirror = some u :=
    Option.isSome_iff_exists.mp (by decide +kernel)
  obtain rfl := party_of_life (hn.kept.place _ _ _ ht).2
  obtain rfl := party_of_life (hn.kept.place _ _ _ hu).2
  obtain ⟨τ, n', hon, hrec, hfin⟩ := rest_can_be_delivered (k := k) hn (by decide +kernel)
    (by decide +kernel) (by decide) ht hu (by decide +kernel) (by decide +kernel)
    (by decide +kernel) (by decide +kernel) (by decide +kernel) (by decide +kernel) 7
  refine ⟨owner, n, n', k, τ, hn, by decide +kernel, hon, hrec.trans (by decide +kernel),
    hfin (.inr (by decide +kernel))⟩

end Network

end MiniTcp
