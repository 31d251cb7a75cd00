import MiniTcp.Tcp.Inbound
import MiniTcp.Tcp.Network
import MiniTcp.Tcp.Recovery

/-!
# Segment boundaries

The segments that were queued once tile the numbers from `iss` to `snd_nxt`, and
everything that is sent later, probes aside, is one of these segments again.  A peer
that is given nothing else takes whole segments: its `rcv_nxt` never stands inside
one of them, and what it holds out of order are whole segments ahead of `rcv_nxt`.
Probes carry a byte that the peer has passed.
-/

namespace MiniTcp

open Serial Tiling TcpConnection

namespace Emission

def seqLen (m : Emission) : ℕ := MiniTcp.seqLen m.flags m.data.length

def SameWire (m m' : Emission) : Prop := m.flags = m'.flags ∧ m.seq = m'.seq ∧ m.data = m'.data

theorem SameWire.seqLen {m m' : Emission} (h : m.SameWire m') : m.seqLen = m'.seqLen := by
  rw [Emission.seqLen, Emission.seqLen, h.1, h.2.2]

end Emission

/-! ## The sending half -/

/-- The first transmissions. -/
def firsts (out : List Emission) : List Emission := out.filter Emission.queued

abbrev SegmentTiles (a b : ℕ) (out : List Emission) : Prop :=
  Tiles (fun m ↦ m.seq.toNat) Emission.seqLen a b (firsts out)

@[simp] theorem firsts_append (l l' : List Emission) : firsts (l ++ l') = firsts l ++ firsts l' :=
  List.filter_append ..

theorem firsts_of_not_queued {l : List Emission} (h : ∀ m ∈ l, m.queued = false) :
    firsts l = [] :=
  List.filter_eq_nil_iff.mpr (by simpa using h)

theorem mem_firsts {l : List Emission} {m : Emission} :
    m ∈ firsts l ↔ m ∈ l ∧ m.queued = true := List.mem_filter

/-- Whatever is sent or queued is the repetition of a first transmission. -/
structure Repeated (c : TcpConnection) (w : Effect) : Prop where
  out : ∀ m ∈ w.out, m.origin ≠ .probe → 0 < m.seqLen → ∃ m' ∈ firsts w.out, m'.SameWire m
  queue : ∀ v ∈ c.retransmitQueue,
    ∃ m ∈ firsts w.out, m.flags = v.flags ∧ m.seq = v.seq ∧ m.data = v.data

section Sender

variable {g : Guard} {c c' : TcpConnection} {w a : Effect}

theorem Repeated.step (h : Repeated c w) (hact : Act g c a c') : Repeated c' (w + a) := by
  have hold {m : Emission} (hm : m ∈ firsts w.out) : m ∈ firsts (w + a).out := by
    rw [Effect.add_out, firsts_append]
    exact List.mem_append_left _ hm
  rcases hact.outbound_cases with ⟨flags, data, hq⟩ | hq
  · obtain ⟨now, hqueue⟩ := hq.queue
    have hnew : (⟨.queued, c.sendSegment flags c.sndNxt data⟩ : Emission) ∈
        firsts (w + a).out := by
      rw [Effect.add_out, hq.out, firsts_append]
      exact List.mem_append_right _ (List.mem_singleton_self _)
    refine ⟨fun m hm hp hpos ↦ ?_, fun v hv ↦ ?_⟩
    · rw [Effect.add_out, hq.out] at hm
      rcases List.mem_append.mp hm with hm | hm
      · obtain ⟨m', hm', hsame⟩ := h.out m hm hp hpos
        exact ⟨m', hold hm', hsame⟩
      · rw [List.mem_singleton.mp hm]
        exact ⟨_, hnew, rfl, rfl, rfl⟩
    · rw [hqueue] at hv
      rcases List.mem_append.mp hv with hv | hv
      · obtain ⟨m, hm, hsame⟩ := h.queue v hv
        exact ⟨m, hold hm, hsame⟩
      · rw [List.mem_singleton.mp hv]
        exact ⟨_, hnew, rfl, rfl, rfl⟩
  · refine ⟨fun m hm hp hpos ↦ ?_, fun v hv ↦ ?_⟩
    · rcases List.mem_append.mp hm with hm | hm
      · obtain ⟨m', hm', hsame⟩ := h.out m hm hp hpos
        exact ⟨m', hold hm', hsame⟩
      · rcases (hq.out m hm).2 with ⟨hprobe, -⟩ | ⟨-, ⟨v, hv, hf, hs, hd⟩ | ⟨hf, hd⟩⟩
        · exact absurd hprobe hp
        · obtain ⟨m', hm', hf', hs', hd'⟩ := h.queue v hv
          exact ⟨m', hold hm', hf'.trans hf.symm, hs'.trans hs.symm, hd'.trans hd.symm⟩
        · rw [Emission.seqLen, hf, hd] at hpos
          exact absurd hpos (by decide)
    · obtain ⟨v₀, hv₀, hf, hs, hd⟩ := hq.queue v hv
      obtain ⟨m, hm, hf', hs', hd'⟩ := h.queue v₀ hv₀
      exact ⟨m, hold hm, hf'.trans hf, hs'.trans hs, hd'.trans hd⟩

theorem NoWrap.of_step (hact : Act g c a c') (hw : NoWrap c' (w + a)) : NoWrap c w := by
  unfold NoWrap at hw ⊢
  rw [hact.iss_eq, Effect.add_out, sentLen_append] at hw
  omega

theorem segmentTiles_step (hsnd : SndInv c w) (hact : Act g c a c')
    (h : NoWrap c w → SegmentTiles c.iss.toNat c.sndNxt.toNat w.out)
    (hw : NoWrap c' (w + a)) : SegmentTiles c'.iss.toNat c'.sndNxt.toNat (w + a).out := by
  have hw₀ := NoWrap.of_step hact hw
  have htiles := h hw₀
  have hnext := (hsnd.step hact).toNat_sndNxt hw
  have hnext₀ := hsnd.toNat_sndNxt hw₀
  rw [hact.iss_eq] at hnext ⊢
  rcases hact.outbound_cases with ⟨flags, data, hq⟩ | hq
  · rw [Effect.add_out, hq.out, sentLen_append, sentLen_queued, ← Nat.add_assoc, ← hnext₀] at hnext
    rw [SegmentTiles, Effect.add_out, firsts_append, hq.out, hnext]
    have hpos : 0 < Emission.seqLen ⟨.queued, c.sendSegment flags c.sndNxt data⟩ := hq.seqLen_pos
    exact htiles.snoc rfl hpos
  · rw [SegmentTiles, Effect.add_out, firsts_append,
      firsts_of_not_queued (fun m hm ↦ (hq.out m hm).1), List.append_nil, hq.next]
    exact htiles

end Sender

namespace Track

variable {g : Guard} {t : Track}

theorem Opened.firsts_eq (h : t.Opened) : ∃ m, t.hist.out = [m] ∧ m.queued = true ∧
    m.seq = t.conn.iss ∧ m.seqLen = 1 ∧ ∃ v, t.conn.retransmitQueue = [v] ∧
      m.flags = v.flags ∧ m.seq = v.seq ∧ m.data = v.data := by
  rcases h with ⟨now, iss, key, rfl⟩ | ⟨now, iss, key, seg, rfl⟩
  · exact ⟨_, rfl, rfl, rfl, (by decide : MiniTcp.seqLen tcpSyn 0 = 1), _, rfl, rfl, rfl, rfl⟩
  · exact ⟨_, rfl, rfl, rfl, (by decide : MiniTcp.seqLen (tcpSyn ||| tcpAck) 0 = 1), _, rfl, rfl,
      rfl, rfl⟩

theorem Reachable.repeated (h : t.Reachable g) : Repeated t.conn t.hist := by
  refine h.invariant (fun t ht ↦ ?_) fun _ _ _ _ hinv hact ↦ hinv.step hact
  obtain ⟨m, hout, hqueued, -, -, v, hqueue, hsame⟩ := ht.firsts_eq
  have hmem : m ∈ firsts t.hist.out := by
    rw [hout]
    exact mem_firsts.mpr ⟨List.mem_singleton_self m, hqueued⟩
  refine ⟨fun m' hm' _ _ ↦ ⟨m, hmem, ?_⟩, fun v' hv' ↦ ⟨m, hmem, ?_⟩⟩
  · rw [hout] at hm'
    obtain rfl := List.mem_singleton.mp hm'
    exact ⟨rfl, rfl, rfl⟩
  · rw [hqueue] at hv'
    obtain rfl := List.mem_singleton.mp hv'
    exact hsame

theorem Reachable.segmentTiles (h : t.Reachable g) (hw : t.NoWrap) :
    SegmentTiles t.conn.iss.toNat t.conn.sndNxt.toNat t.hist.out := by
  refine (h.invariant (P := fun c w ↦ SndInv c w ∧
    (MiniTcp.NoWrap c w → SegmentTiles c.iss.toNat c.sndNxt.toNat w.out))
    (fun t ht ↦ ⟨ht.sndInv, fun hw ↦ ?_⟩)
    (fun _ _ _ _ hinv hact ↦ ⟨hinv.1.step hact, segmentTiles_step hinv.1 hact hinv.2⟩)).2 hw
  have hnext := ht.sndInv.toNat_sndNxt hw
  obtain ⟨m, hout, hqueued, hseq, hlen, -⟩ := ht.firsts_eq
  have hfirsts : firsts t.hist.out = [m] := by
    rw [hout]
    exact List.filter_cons_of_pos hqueued
  have hone : sentLen t.hist.out = 1 := by
    change ((firsts t.hist.out).map Emission.seqLen).sum = 1
    rw [hfirsts]
    simpa using hlen
  rw [SegmentTiles, hfirsts, hnext, hone]
  exact ⟨congrArg UInt32.toNat hseq, by omega, by rw [hlen]; rfl⟩

end Track

/-! ## The receiving half -/

/-- The receiving half has taken whole segments of `T`, and holds whole segments of `T`
out of order. -/
structure Whole (T : List Emission) (c : TcpConnection) : Prop where
  between : ∀ m ∈ T, m.seq.toNat + m.seqLen ≤ c.rcvNxt.toNat ∨ c.rcvNxt.toNat ≤ m.seq.toNat
  ooo : ∀ s d, c.oooBuffer.lookup s = some d →
    d ≠ [] ∧ c.rcvNxt.toNat ≤ s.toNat ∧ ∃ m ∈ T, m.seq = s ∧ m.data = d ∧ m.seqLen = d.length

/-- A segment that is one of `T`, or starts at a number that was passed. -/
structure OneOf (T : List Emission) (c : TcpConnection) (seg : TcpHeader) (payload : Bytes) :
    Prop where
  data : payload ≠ [] → seg.seqNum < c.rcvNxt ∨
    ∃ m ∈ T, m.seq = seg.seqNum ∧ m.data = payload ∧ m.seqLen = payload.length
  fin : hasFlag seg.flags tcpFin → payload = [] ∧ ∃ m ∈ T, m.seq = seg.seqNum ∧ m.seqLen = 1

namespace Whole

variable {T : List Emission} {c c' : TcpConnection} {a b : ℕ} {seg : TcpHeader} {payload : Bytes}

theorem congr (h : Whole T c) (hnxt : c'.rcvNxt = c.rcvNxt) (hooo : c'.oooBuffer = c.oooBuffer) :
    Whole T c' := by
  refine ⟨fun m hm ↦ ?_, fun s d hs ↦ ?_⟩
  · rw [hnxt]
    exact h.between m hm
  · rw [hooo] at hs
    rw [hnxt]
    exact h.ooo s d hs

/-- The next segment of `T` is taken. -/
theorem advance (hT : Tiles (fun m ↦ m.seq.toNat) Emission.seqLen a b T) (h : Whole T c)
    {m : Emission} (hm : m ∈ T) (hseq : m.seq = c.rcvNxt)
    (hnxt : c'.rcvNxt.toNat = c.rcvNxt.toNat + m.seqLen)
    (hooo : ∀ s d, c'.oooBuffer.lookup s = some d → c.oooBuffer.lookup s = some d ∧ s ≠ m.seq) :
    Whole T c' := by
  have hpos : m.seq.toNat = c.rcvNxt.toNat := congrArg UInt32.toNat hseq
  have hbeyond {v : Emission} (hv : v ∈ T) :
      v.seq.toNat + v.seqLen ≤ c'.rcvNxt.toNat ∨ c'.rcvNxt.toNat ≤ v.seq.toNat := by
    rcases hT.apart hm hv with rfl | hle | hle <;> omega
  refine ⟨fun v hv ↦ hbeyond hv, fun s d hs ↦ ?_⟩
  obtain ⟨hs, hne⟩ := hooo s d hs
  obtain ⟨hd, hle, v, hv, hvs, hdata, hlen⟩ := h.ooo s d hs
  refine ⟨hd, ?_, v, hv, hvs, hdata, hlen⟩
  have hvpos : v.seq.toNat = s.toNat := congrArg UInt32.toNat hvs
  have hdpos := List.length_pos_of_ne_nil hd
  have hne' : s.toNat ≠ m.seq.toNat := fun heq ↦ hne (UInt32.toNat_inj.mp heq)
  rcases hT.apart hm hv with rfl | hle' | hle' <;> omega

theorem append (hT : Tiles (fun m ↦ m.seq.toNat) Emission.seqLen a b T) (hb : b < 2 ^ 32)
    (h : Whole T c) {m : Emission} (hm : m ∈ T) (hseq : m.seq = c.rcvNxt)
    (hlen : m.seqLen = payload.length)
    (hooo : ∀ s d, c'.oooBuffer.lookup s = some d → c.oooBuffer.lookup s = some d ∧ s ≠ m.seq)
    (hnxt : c'.rcvNxt = shift c.rcvNxt payload.length) : Whole T c' := by
  have hbound := (hT.bounds hm).2.2
  have hpos : m.seq.toNat = c.rcvNxt.toNat := congrArg UInt32.toNat hseq
  refine h.advance hT hm hseq ?_ hooo
  rw [hnxt, toNat_shift (by omega), hlen]

theorem splice (hT : Tiles (fun m ↦ m.seq.toNat) Emission.seqLen a b T) (hb : b < 2 ^ 32)
    (fuel : ℕ) (h : Whole T c) : Whole T (splice fuel c).1 := by
  induction fuel generalizing c with
  | zero => exact h
  | succ fuel ih =>
      rw [TcpConnection.splice]
      split
      · exact h
      · next data hs =>
          obtain ⟨-, -, m, hm, hseq, -, hlen⟩ := h.ooo _ data hs
          refine ih (h.append hT hb hm hseq hlen (fun s d hs ↦ ?_)
            (appendInOrder_rcvNxt data _))
          change (AList.erase c.rcvNxt c.oooBuffer).lookup s = some d at hs
          rw [AssocMap.lookup_erase_eq] at hs
          split_ifs at hs with hne
          exact ⟨hs, by rwa [hseq]⟩

theorem receive (hT : Tiles (fun m ↦ m.seq.toNat) Emission.seqLen a b T) (hb : b < 2 ^ 32)
    (h : Whole T c) (hnone : c.oooBuffer.lookup c.rcvNxt = none) (hseg : OneOf T c seg payload) :
    (∀ m ∈ T, m.seq.toNat + m.seqLen ≤ (c.receiveDataAndMaybeFin seg payload).conn.rcvNxt.toNat ∨
        (c.receiveDataAndMaybeFin seg payload).conn.rcvNxt.toNat ≤ m.seq.toNat) ∧
      ((c.receiveDataAndMaybeFin seg payload).fin = false →
        Whole T (c.receiveDataAndMaybeFin seg payload).conn ∧
          (c.receiveDataAndMaybeFin seg payload).conn.oooBuffer.lookup
            (c.receiveDataAndMaybeFin seg payload).conn.rcvNxt = none) := by
  by_cases heq : seg.seqNum = c.rcvNxt
  · obtain ⟨hconn, hfin⟩ := receive_of_eq payload heq
    rw [hconn, hfin]
    have happ : Whole T (c.appendInOrder payload) := by
      by_cases hne : payload = []
      · rw [hne, appendInOrder_nil]
        exact h
      · rcases hseg.data hne with hlt | ⟨m, hm, hseq, -, hlen⟩
        · rw [heq] at hlt
          exact absurd hlt (UInt32.lt_irrefl _)
        · refine h.append hT hb hm (hseq.trans heq) hlen (fun s d hs ↦ ⟨hs, ?_⟩)
            (appendInOrder_rcvNxt payload c)
          rintro rfl
          rw [hseq, heq] at hs
          have hboth : none = some d := hnone.symm.trans hs
          cases hboth
    have hsplice := happ.splice hT hb c.oooBuffer.entries.length
    have hlook := lookup_splice c.oooBuffer.entries.length (c.appendInOrder payload)
      (Nat.le_refl _)
    by_cases hflag : hasFlag seg.flags tcpFin
    · -- the FIN stands alone, so nothing is appended or spliced in before it
      obtain ⟨rfl, m, hm, hseq, hlen⟩ := hseg.fin hflag
      have hpos : m.seq.toNat = c.rcvNxt.toNat := congrArg UInt32.toNat (hseq.trans heq)
      have hbound := (hT.bounds hm).2.2
      dsimp only
      rw [if_pos hflag, appendInOrder_nil, splice_of_lookup _ hnone]
      refine ⟨fun v hv ↦ ?_, fun hno ↦ ?_⟩
      · have hnxt : (c.rcvNxt + 1).toNat = c.rcvNxt.toNat + 1 := by
          rw [add_one, toNat_shift (by omega)]
        change v.seq.toNat + v.seqLen ≤ (c.rcvNxt + 1).toNat ∨ (c.rcvNxt + 1).toNat ≤ v.seq.toNat
        rcases hT.apart hm hv with rfl | hle | hle <;> omega
      · rw [hflag] at hno
        cases hno
    · dsimp only
      rw [if_neg hflag]
      exact ⟨hsplice.between, fun _ ↦ ⟨hsplice, hlook⟩⟩
  · by_cases hgt : seg.seqNum > c.rcvNxt
    · rw [(receive_of_gt payload heq hgt).1]
      have hlt : c.rcvNxt.toNat < seg.seqNum.toNat := UInt32.lt_iff_toNat_lt.mp hgt
      by_cases hroom : !payload.isEmpty && c.bufferedBytes + payload.length ≤ c.recvBufferCap
      · rw [if_pos hroom]
        simp only [Bool.and_eq_true, Bool.not_eq_true', List.isEmpty_eq_false_iff] at hroom
        refine ⟨h.between, fun _ ↦ ⟨⟨h.between, fun s d hs ↦ ?_⟩, ?_⟩⟩
        · change (AList.insert seg.seqNum payload c.oooBuffer).lookup s = some d at hs
          rw [AssocMap.lookup_insert_eq] at hs
          split_ifs at hs with hk
          · obtain rfl := Option.some.inj hs
            subst hk
            rcases hseg.data hroom.1 with hpassed | htile
            · exact absurd (UInt32.lt_iff_toNat_lt.mp hpassed) (by omega)
            · exact ⟨hroom.1, Nat.le_of_lt hlt, htile⟩
          · exact h.ooo s d hs
        · change (AList.insert seg.seqNum payload c.oooBuffer).lookup c.rcvNxt = none
          rw [AssocMap.lookup_insert_eq, if_neg (Ne.symm heq)]
          exact hnone
      · rw [if_neg hroom]
        exact ⟨h.between, fun _ ↦ ⟨h, hnone⟩⟩
    · rw [(receive_of_lt payload heq hgt).1]
      exact ⟨h.between, fun _ ↦ ⟨h, hnone⟩⟩

end Whole

/-- What the receiving half has taken and holds, once it knows the peer whose first
transmissions are `T`. -/
structure Aligned (T : List Emission) (c : TcpConnection) (w : Effect) : Prop where
  between : w.syn = true →
    ∀ m ∈ T, m.seq.toNat + m.seqLen ≤ c.rcvNxt.toNat ∨ c.rcvNxt.toNat ≤ m.seq.toNat
  held : w.syn = true → w.fin = false → Whole T c ∧ c.oooBuffer.lookup c.rcvNxt = none

/-- A peer that sends nothing but `T`, whose first number is `a`. -/
def wholeSegments (T : List Emission) (a : ℕ) : Guard where
  ack _ seg := hasFlag seg.flags tcpSyn → ∃ m ∈ T, m.seq = seg.seqNum ∧ m.seqLen = 1 ∧
    m.seq.toNat = a
  data := OneOf T

section Receiver

variable {T : List Emission} {c c' : TcpConnection} {w e : Effect} {a b : ℕ}

/-- Right behind the first segment nothing is cut. -/
theorem between_first (hT : Tiles (fun m ↦ m.seq.toNat) Emission.seqLen a b T) (hb : b < 2 ^ 32)
    {m v : Emission} (hm : m ∈ T) (hlen : m.seqLen = 1) (ha : m.seq.toNat = a) (hv : v ∈ T) :
    v.seq.toNat + v.seqLen ≤ (m.seq + 1).toNat ∨ (m.seq + 1).toNat ≤ v.seq.toNat := by
  have hbound := hT.bounds hm
  have hvbound := hT.bounds hv
  rw [add_one, toNat_shift (by omega)]
  rcases hT.apart hm hv with rfl | hle | hle <;> omega

theorem Aligned.step (hT : Tiles (fun m ↦ m.seq.toNat) Emission.seqLen a b T) (hb : b < 2 ^ 32)
    (hcount : RcvCount c w) (h : Aligned T c w) (hact : Act (wholeSegments T a) c e c') :
    Aligned T c' (w + e) := by
  rcases hact.inbound_cases with ⟨hst, -, rfl, hnxt, -, hooo⟩ |
    ⟨seg, payload, hrec, hdata, hsyn, -, hfin, hin, -⟩ | ⟨hsyn, hfin, -, hnxt, hooo, -⟩
  · -- our SYN was answered, so the peer's had not been taken before
    have hw : w.syn = false := by
      by_contra hne
      exact (hcount.2 (by simpa using hne)).1 hst
    have hempty : c'.oooBuffer = ∅ := hooo.trans (hcount.1 hw).ooo
    obtain ⟨seg, hflag, hack, hirs⟩ := hact.irs_cases.resolve_right fun hno ↦ nomatch hno.1
    obtain ⟨m, hm, hseq, hlen, hfirst⟩ := hack hflag
    rw [hirs, ← hseq] at hnxt
    have hcut {v : Emission} (hv : v ∈ T) :
        v.seq.toNat + v.seqLen ≤ c'.rcvNxt.toNat ∨ c'.rcvNxt.toNat ≤ v.seq.toNat := by
      rw [hnxt]
      exact between_first hT hb hm hlen hfirst hv
    refine ⟨fun _ v hv ↦ hcut hv, fun _ _ ↦
      ⟨⟨fun v hv ↦ hcut hv, fun s d hs ↦ ?_⟩, by rw [hempty]; rfl⟩⟩
    rw [hempty] at hs
    cases hs
  · have hw : w.syn = true := by
      by_contra hne
      rcases (hcount.1 (by simpa using hne)).state with hs | hs <;>
        simp [hs, TcpState.receives] at hrec
    have hopen : w.fin = false := by
      by_contra hne
      have htaken := (hcount.2 hw).2.1 (by simpa using hne)
      cases hs : c.state <;> simp [hs, TcpState.receives, TcpState.finTaken] at hrec htaken
    obtain ⟨hwhole, hnone⟩ := h.held hw hopen
    obtain ⟨hcut, hrest⟩ := hwhole.receive hT hb hnone hdata
    have hnxt : c'.rcvNxt = (c.receiveDataAndMaybeFin seg payload).conn.rcvNxt :=
      congrArg Inbound.rcvNxt hin
    have hooo : c'.oooBuffer = (c.receiveDataAndMaybeFin seg payload).conn.oooBuffer :=
      congrArg Inbound.oooBuffer hin
    refine ⟨fun _ ↦ by rwa [hnxt], fun _ hno ↦ ?_⟩
    rw [Effect.add_fin, hopen, Bool.false_or, hfin] at hno
    obtain ⟨hwhole', hnone'⟩ := hrest hno
    exact ⟨hwhole'.congr hnxt hooo, by rwa [hnxt, hooo]⟩
  · have hw : (w + e).syn = w.syn := by simp [hsyn]
    have hf : (w + e).fin = w.fin := by simp [hfin]
    refine ⟨fun hyes ↦ ?_, fun hyes hno ↦ ?_⟩
    · rw [hnxt]
      exact h.between (hw ▸ hyes)
    · obtain ⟨hwhole, hnone⟩ := h.held (hw ▸ hyes) (hf ▸ hno)
      exact ⟨hwhole.congr hnxt hooo, by rwa [hnxt, hooo]⟩

/-- New segments start at or behind `rcv_nxt`. -/
theorem Aligned.append {T' : List Emission} (h : Aligned T c w)
    (hnew : w.syn = true → ∀ m ∈ T', c.rcvNxt.toNat ≤ m.seq.toNat) : Aligned (T ++ T') c w := by
  have hcut (hsyn : w.syn = true) {m : Emission} (hm : m ∈ T ++ T') :
      m.seq.toNat + m.seqLen ≤ c.rcvNxt.toNat ∨ c.rcvNxt.toNat ≤ m.seq.toNat := by
    rcases List.mem_append.mp hm with hm | hm
    · exact h.between hsyn m hm
    · exact .inr (hnew hsyn m hm)
  refine ⟨fun hsyn m hm ↦ hcut hsyn hm, fun hsyn hno ↦ ?_⟩
  obtain ⟨hwhole, hnone⟩ := h.held hsyn hno
  refine ⟨⟨fun m hm ↦ hcut hsyn hm, fun s d hs ↦ ?_⟩, hnone⟩
  obtain ⟨hd, hle, m, hm, hsame⟩ := hwhole.ooo s d hs
  exact ⟨hd, hle, m, List.mem_append_left _ hm, hsame⟩

end Receiver

/-! ## What one end sends the other -/

theorem Faithful.seqLen_eq {iss seq : UInt32} {tx data : Bytes} {fins : ℕ} {flags : UInt8}
    (h : Faithful iss tx fins flags seq data) (hw : iss.toNat + (1 + tx.length + fins) < 2 ^ 32) :
    (data ≠ [] → seqLen flags data.length = data.length) ∧
      (hasFlag flags tcpSyn ∨ hasFlag flags tcpFin → seqLen flags data.length = 1) := by
  unfold seqLen
  cases hsyn : hasFlag flags tcpSyn with
  | false =>
      cases hfin : hasFlag flags tcpFin with
      | false => simp
      | true =>
          obtain ⟨-, rfl, -⟩ := h.fin hfin
          simp
  | true =>
      obtain ⟨rfl, rfl⟩ := h.syn hsyn
      cases hfin : hasFlag flags tcpFin with
      | false => simp
      | true =>
          -- SYN and FIN stand at different numbers
          have hseq := congrArg UInt32.toNat (h.fin hfin).2.2
          rw [toNat_shift (by omega)] at hseq
          omega

namespace Track

variable {g : Guard} {t u : Track} {m : Emission}

theorem Reachable.first_of_mem (h : t.Reachable g) (hw : t.NoWrap) (hm : m ∈ t.hist.out)
    (hp : m.origin ≠ .probe) :
    (m.data ≠ [] → ∃ m' ∈ firsts t.hist.out,
        m'.seq = m.seq ∧ m'.data = m.data ∧ m'.seqLen = m.data.length) ∧
      (hasFlag m.flags tcpSyn ∨ hasFlag m.flags tcpFin → m.data = [] ∧
        ∃ m' ∈ firsts t.hist.out, m'.seq = m.seq ∧ m'.seqLen = 1) := by
  have hsnd := h.sndInv
  have hf := ((hsnd.out m hm).resolve_left fun hpr ↦ hp hpr.1).2
  obtain ⟨hdata, hflag⟩ := hf.seqLen_eq (hsnd.len ▸ hw)
  refine ⟨fun hne ↦ ?_, fun hany ↦ ⟨?_, ?_⟩⟩
  · have hpos : 0 < m.seqLen := by
      rw [Emission.seqLen, hdata hne]
      exact List.length_pos_of_ne_nil hne
    obtain ⟨m', hm', hsame⟩ := h.repeated.out m hm hp hpos
    exact ⟨m', hm', hsame.2.1, hsame.2.2, hsame.seqLen.trans (hdata hne)⟩
  · rcases hany with hsyn | hfin
    · exact (hf.syn hsyn).2
    · exact (hf.fin hfin).2.1
  · have hone : m.seqLen = 1 := hflag hany
    obtain ⟨m', hm', hsame⟩ := h.repeated.out m hm hp (by omega)
    exact ⟨m', hm', hsame.2.1, hsame.seqLen.trans hone⟩

theorem Reachable.syn_of_mem (h : t.Reachable g) (hw : t.NoWrap) (hm : m ∈ t.hist.out)
    (hsyn : hasFlag m.flags tcpSyn) :
    ∃ m' ∈ firsts t.hist.out, m'.seq = m.seq ∧ m'.seqLen = 1 ∧ m'.seq.toNat = t.conn.iss.toNat := by
  have hp : m.origin ≠ .probe := by
    intro hpr
    rcases h.sndInv.out m hm with ⟨-, hflags, -⟩ | ⟨hno, -⟩
    · rw [hflags] at hsyn
      exact absurd hsyn (by decide)
    · exact hno hpr
  obtain ⟨-, m', hm', hseq, hlen⟩ := (h.first_of_mem hw hm hp).2 (.inl hsyn)
  refine ⟨m', hm', hseq, hlen, ?_⟩
  rw [hseq, ((h.sndInv.faithful hm (.inl hsyn)).syn hsyn).1]

/-- What an end can hear of the other is one of its segments, or a probe that
repeats a number it has passed. -/
theorem wholeSegments_admits (h : t.Reachable {}) (hw : t.NoWrap) (hflow : Flow t u)
    (hu : RcvCount u.conn u.hist) {sent : List Emission} {ce : ConnEvent}
    (hsent : ∀ m ∈ sent, m.IsReset ∨ m ∈ t.hist.out) (he : ce.Heard sent) :
    (wholeSegments (firsts t.hist.out) t.conn.iss.toNat).Admits u.conn ce := by
  cases ce with
  | segment now seg data =>
      obtain ⟨m, hm, rfl, rfl⟩ := he
      have hout (hrst : ¬ hasFlag m.parsed.flags tcpRst) : m ∈ t.hist.out :=
        (hsent m hm).resolve_left fun hr ↦ hrst hr.1
      refine ⟨fun htakes hsyn ↦ h.syn_of_mem hw (hout htakes.2.1) hsyn, fun htakes c' hin ↦ ?_⟩
      have hm := hout htakes.1
      have hnxt : c'.rcvNxt = u.conn.rcvNxt := congrArg Inbound.rcvNxt hin
      by_cases hp : m.origin = .probe
      · have hsyn : u.hist.syn = true := by
          by_contra hne
          rcases (hu.1 (by simpa using hne)).state with hs | hs <;>
            rcases htakes.2 with hrec | ⟨hst, -⟩ <;> simp_all [TcpState.receives]
        have hpassed : m.seq.toNat < u.conn.rcvNxt.toNat := by
          have hnext := hflow.toNat_rcvNxt h.sndInv hw hsyn
          have htaken := hflow.taken_le h.sndInv
          change t.conn.iss.toNat + sentLen t.hist.out < 2 ^ 32 at hw
          have hu1 : 1 + u.received.length ≤ u.taken := by
            rw [taken, if_pos hsyn]
            omega
          rcases hflow.probes m hm hp with ⟨p, hlt, hseq⟩ | hseq
          · rw [hseq, add_one, shift_shift, toNat_shift (by omega)]
            omega
          · have hseq : m.seq = t.conn.iss := (UInt32.add_left_inj 1).mp hseq
            rw [hseq]
            omega
        refine ⟨fun _ ↦ .inl ?_, fun hfin ↦ ?_⟩
        · rw [hnxt, UInt32.lt_iff_toNat_lt]
          exact hpassed
        · rcases h.sndInv.out m hm with ⟨-, hflags, -⟩ | ⟨hno, -⟩
          · change hasFlag m.flags tcpFin at hfin
            rw [hflags] at hfin
            exact absurd hfin (by decide)
          · exact absurd hp hno
      · obtain ⟨hdata, hfin⟩ := h.first_of_mem hw hm hp
        exact ⟨fun hne ↦ .inr (hdata hne), fun hf ↦ hfin (.inr hf)⟩
  | _ => trivial

end Track

namespace Aligned

variable {t u : Track}

theorem receiver_step (h : Aligned (firsts t.hist.out) u.conn u.hist) (hlive : t.Reachable {})
    (hw : t.NoWrap) (hu : u.Reachable {}) (hflow : Flow t u) {sent : List Emission}
    {ce : ConnEvent} (hsent : ∀ m ∈ sent, m.IsReset ∨ m ∈ t.hist.out) (he : ce.Heard sent) :
    Aligned (firsts t.hist.out) (u.step ce).conn (u.step ce).hist :=
  (Track.step_invariant
    (P := fun c w ↦ RcvCount c w ∧ Aligned (firsts t.hist.out) c w)
    (fun _ _ _ _ hinv hact ↦ ⟨hinv.1.step hact,
      hinv.2.step (hlive.segmentTiles hw) t.conn.sndNxt.toNat_lt hinv.1 hact⟩)
    (Track.wholeSegments_admits hlive hw hflow hu.rcvCount hsent he) ⟨hu.rcvCount, h⟩).2

theorem sender_step {ce : ConnEvent} (h : Aligned (firsts t.hist.out) u.conn u.hist)
    (hlive : t.Reachable {}) (hlive' : (t.step ce).Reachable {}) (hw : (t.step ce).NoWrap)
    (hflow : Flow t u) : Aligned (firsts (t.step ce).hist.out) u.conn u.hist := by
  have hout : (t.step ce).hist.out = t.hist.out ++ (t.conn.step ce).2.out := rfl
  have hw₀ : t.NoWrap := by
    change (t.step ce).conn.iss.toNat + sentLen (t.step ce).hist.out < 2 ^ 32 at hw
    change t.conn.iss.toNat + sentLen t.hist.out < 2 ^ 32
    rw [Track.iss_step, hout, sentLen_append] at hw
    omega
  have htiles := hlive'.segmentTiles hw
  rw [SegmentTiles, Track.iss_step, hout, firsts_append] at htiles
  have hnew := htiles.of_append (hlive.segmentTiles hw₀)
  rw [hout, firsts_append]
  refine h.append fun hsyn m hm ↦ ?_
  have hnxt := hflow.toNat_rcvNxt hlive.sndInv hw₀ hsyn
  have hle := hflow.taken_le hlive.sndInv
  have hend := hlive.sndInv.toNat_sndNxt hw₀
  have hge := (hnew.bounds hm).1
  omega

theorem passive (hlive : t.Reachable {}) (hw : t.NoWrap) {m : Emission} (hm : m ∈ t.hist.out)
    (hsyn : hasFlag m.flags tcpSyn) (now : Instant) (iss : UInt32) (key : ConnectionKey) :
    Aligned (firsts t.hist.out) (Track.passive now iss key m.parsed).conn
      (Track.passive now iss key m.parsed).hist := by
  obtain ⟨m', hm', hseq, hlen, hfirst⟩ := hlive.syn_of_mem hw hm hsyn
  have hcut {v : Emission} (hv : v ∈ firsts t.hist.out) := between_first (hlive.segmentTiles hw)
    t.conn.sndNxt.toNat_lt hm' hlen hfirst hv
  rw [hseq] at hcut
  exact ⟨fun _ v hv ↦ hcut hv, fun _ _ ↦ ⟨⟨fun v hv ↦ hcut hv, nofun⟩, rfl⟩⟩

end Aligned

namespace Conversation

variable {c : Conversation} {x : Side} {t : Track}

def NoWrap (c : Conversation) : Prop :=
  ∀ x, (c.party x).conn.iss.toNat + (c.party x).hist.accepted.length + 2 < 2 ^ 32

theorem Moves.noWrap (h : c.Moves x t) (hw : (c.move (x, t)).NoWrap) : c.NoWrap := by
  intro y
  have hlt := hw y
  have hacc := (h.accepted_prefix y).length_le
  have hiss : (c.party y).conn.iss.toNat ≤ ((c.move (x, t)).party y).conn.iss.toNat :=
    h.party_mono (R := fun t t' ↦ t.conn.iss.toNat ≤ t'.conn.iss.toNat) (fun _ ↦ Nat.le_refl _)
      (fun _ _ ↦ Nat.zero_le _) (fun t ce ↦ by rw [Track.iss_step]) y
  omega

theorem Reached.fits_of_noWrap (h : c.Reached) (hw : c.NoWrap) : Fits c :=
  h.fits fun x ↦ by
    have hlt := hw x
    omega

/-- An invariant of the two ends as long as the numbers do not wrap. -/
theorem Reached.invariant {P : Conversation → Prop} (hsilent : P silent)
    (hmove : ∀ c x t, c.Reached → c.NoWrap → Fits c → c.Moves x t → (c.move (x, t)).NoWrap →
      P c → P (c.move (x, t)))
    (h : c.Reached) (hw : c.NoWrap) : P c := by
  refine Run.Reaches.invariant (P := fun c : Conversation ↦ c.NoWrap → P c) ?_ ?_ h hw
  · rintro c rfl -
    exact hsilent
  · rintro c ⟨x, t⟩ hc hm ih hw
    have hw₀ := hm.noWrap hw
    exact hmove c x t hc hw₀ (Reached.fits_of_noWrap hc hw₀) hm hw (ih hw₀)

theorem Fits.noWrap (h : Fits c) (hw : c.NoWrap) (ht : c.track x = some t) : t.NoWrap := by
  have hlt := hw x
  rw [party_of_track ht] at hlt
  exact (h.live x t ht).sndInv.noWrap hlt

/-- Either end acknowledges only what the other has sent. -/
theorem Reached.sentAcks (h : c.Reached) (hw : c.NoWrap) (ht : c.track x = some t) :
    t.Reachable MiniTcp.sentAcks := by
  refine h.invariant (P := fun c ↦ ∀ x t, c.track x = some t → t.Reachable MiniTcp.sentAcks)
    (by nofun) ?_ hw x t ht
  intro c x t _ hw hfits hmove _ ih y t' ht'
  rcases x.eq_or_eq_other y with rfl | rfl
  · rw [track_move_self] at ht'
    obtain rfl := Option.some.inj ht'
    cases hmove with
    | connect now iss key => exact .start (.inl ⟨now, iss, key, rfl⟩)
    | answer now iss key => exact .start (.inr ⟨now, iss, key, _, rfl⟩)
    | @event t ce ht hce =>
        obtain ⟨sent, hsent, hheard⟩ := hce
        have hflow := hfits.flow y
        rw [party_of_track ht] at hflow
        exact .tail ce (ih y t ht)
          (hflow.sentAcks_admits (hfits.live y t ht).sndInv (hfits.noWrap hw ht) hsent hheard)
  · exact ih _ t' (track_move_other.symm.trans ht')

/-- What end `x` has taken and holds are whole segments of the other end. -/
def Lined (c : Conversation) (x : Side) : Prop :=
  Aligned (firsts (c.party x.other).hist.out) (c.party x).conn (c.party x).hist

theorem lined_of_syn (h : (c.party x).hist.syn = false) : c.Lined x := by
  refine ⟨fun hyes ↦ ?_, fun hyes ↦ ?_⟩ <;>
    · rw [h] at hyes
      cases hyes

/-- The end that moved has sent more. -/
theorem Lined.move_other (hfits : Fits c) (hfits' : Fits (c.move (x, t)))
    (hw' : (c.move (x, t)).NoWrap) (hmove : c.Moves x t) (h : c.Lined x.other) :
    (c.move (x, t)).Lined x.other := by
  rw [Lined, Side.other_other] at h ⊢
  rw [party_move_self, party_move_other]
  cases htr : c.track x with
  | none =>
      have hno := hfits.unheard x htr
      refine ⟨fun hyes ↦ ?_, fun hyes ↦ ?_⟩ <;>
        · rw [hno] at hyes
          cases hyes
  | some t₀ =>
      obtain ⟨ce, rfl⟩ : ∃ ce, t = t₀.step ce := by
        cases hmove with
        | connect _ _ _ hnone | answer _ _ _ hnone =>
            rw [hnone] at htr
            cases htr
        | event ht => exact ⟨_, by rw [Option.some.inj (ht.symm.trans htr)]⟩
      have hflow := hfits.flow x
      rw [party_of_track htr] at h hflow
      exact h.sender_step (hfits.live x t₀ htr)
        (hfits'.live x _ track_move_self) (hfits'.noWrap hw' track_move_self) hflow

theorem Lined.move_self (hfits : Fits c) (hw : c.NoWrap) (hfits' : Fits (c.move (x, t)))
    (hmove : c.Moves x t) (h : c.Lined x) : (c.move (x, t)).Lined x := by
  cases hother : c.track x.other with
  | none =>
      have hno := hfits'.unheard x.other (track_move_other.trans hother)
      rw [Side.other_other] at hno
      exact lined_of_syn hno
  | some u =>
      have hlive := hfits.live _ u hother
      have hwu := hfits.noWrap hw hother
      rw [Lined, party_move_self, party_move_other, party_of_track hother]
      cases hmove with
      | connect => exact ⟨nofun, nofun⟩
      | answer now iss key hnone hm hsyn =>
          rw [party_of_track hother] at hm
          exact .passive hlive hwu hm hsyn now iss key
      | @event t ce ht hce =>
          obtain ⟨sent, hsent, hheard⟩ := hce
          have hflow := hfits.flow x.other
          rw [Lined, party_of_track ht, party_of_track hother] at h
          rw [Side.other_other, party_of_track ht, party_of_track hother] at hflow
          rw [party_of_track hother] at hsent
          exact h.receiver_step hlive hwu (hfits.live x t ht) hflow hsent hheard

theorem Reached.lined (h : c.Reached) (hw : c.NoWrap) (x : Side) : c.Lined x := by
  refine h.invariant (P := fun c ↦ ∀ x, c.Lined x) ?_ ?_ hw x
  · exact fun x ↦ ⟨nofun, nofun⟩
  · intro c x t hc hw hfits hmove hw' ih y
    have hfits' := (hc.move hmove).fits_of_noWrap hw'
    rcases x.eq_or_eq_other y with rfl | rfl
    · exact .move_self hfits hw hfits' hmove (ih y)
    · exact .move_other hfits hfits' hw' hmove (ih x.other)

/-- Nothing that is sent has its end behind `rcv_nxt` of the other end and its start
before it. -/
theorem Reached.end_le (h : c.Reached) (hw : c.NoWrap) (hsyn : (c.party x.other).hist.syn = true)
    {m : Emission} (hm : m ∈ (c.party x).hist.out) (hlt : m.seq < (c.party x.other).conn.rcvNxt) :
    m.seq.toNat + m.seqLen ≤ (c.party x.other).conn.rcvNxt.toNat := by
  have hfits := h.fits_of_noWrap hw
  have hlined := h.lined hw x.other
  obtain ⟨t, ht⟩ := exists_track_of_mem hm
  rw [UInt32.lt_iff_toNat_lt] at hlt
  rw [Lined, Side.other_other, party_of_track ht] at hlined
  rw [party_of_track ht] at hm
  have hlive := hfits.live x t ht
  have hwt := hfits.noWrap hw ht
  by_cases hp : m.origin = .probe
  · rcases hlive.sndInv.out m hm with ⟨-, hflags, hdata⟩ | ⟨hno, -⟩
    · have hone : m.seqLen = 1 := by
        rw [Emission.seqLen, hflags, hdata]
        decide
      omega
    · exact absurd hp hno
  · rcases Nat.eq_zero_or_pos m.seqLen with hzero | hpos
    · omega
    · obtain ⟨m', hm', hsame⟩ := hlive.repeated.out m hm hp hpos
      have hcut := hlined.between hsyn m' hm'
      rw [hsame.2.1, hsame.seqLen] at hcut
      omega

end Conversation

namespace Network

variable {ι : Type} {owner : UInt32 → ι} {n : Network ι} {k : ConnectionKey}

theorem noWrap_link
    (hw : (n.party k).conn.iss.toNat + (n.party k).hist.accepted.length + 2 < 2 ^ 32)
    (hw' : (n.party k.mirror).conn.iss.toNat + (n.party k.mirror).hist.accepted.length + 2 <
      2 ^ 32) : (n.link k).NoWrap := by
  intro x
  cases x with
  | a => exact hw
  | b => exact hw'

/-- A segment that starts before `rcv_nxt` is discarded without a look at its end.
Nothing is lost by that: whatever the other end ever sent and starts there ends there,
too.  What is held out of order are payloads of segments ahead of `rcv_nxt`. -/
theorem discarded_was_taken [DecidableEq ι] (hn : n.Reached owner) (ha : n.born k ≤ 1)
    (hb : n.born k.mirror ≤ 1)
    (hw : (n.party k).conn.iss.toNat + (n.party k).hist.accepted.length + 2 < 2 ^ 32)
    (hw' : (n.party k.mirror).conn.iss.toNat + (n.party k.mirror).hist.accepted.length + 2 <
      2 ^ 32)
    (hsyn : (n.party k.mirror).hist.syn = true) :
    (∀ m ∈ (n.party k).hist.out, m.seq < (n.party k.mirror).conn.rcvNxt →
        m.seq.toNat + seqLen m.flags m.data.length ≤ (n.party k.mirror).conn.rcvNxt.toNat) ∧
      ((n.party k.mirror).hist.fin = false →
        ∀ s d, (n.party k.mirror).conn.oooBuffer.lookup s = some d →
          (n.party k.mirror).conn.rcvNxt < s ∧ d ≠ [] ∧
            ∃ m ∈ (n.party k).hist.out, m.queued = true ∧ m.seq = s ∧ m.data = d) := by
  have hlink := hn.link k ha hb
  have hnowrap := noWrap_link hw hw'
  refine ⟨fun m hm hlt ↦ hlink.end_le (x := .a) hnowrap hsyn hm hlt, fun hfin s d hs ↦ ?_⟩
  obtain ⟨hwhole, hnone⟩ := (hlink.lined hnowrap .b).held hsyn hfin
  obtain ⟨hd, hle, m, hm, hseq, hdata, -⟩ := hwhole.ooo s d hs
  obtain ⟨hm, hqueued⟩ := mem_firsts.mp hm
  refine ⟨?_, hd, m, hm, hqueued, hseq, hdata⟩
  change (n.party k.mirror).conn.rcvNxt.toNat ≤ s.toNat at hle
  rw [UInt32.lt_iff_toNat_lt]
  refine Nat.lt_of_le_of_ne hle fun heq ↦ ?_
  obtain rfl := UInt32.toNat_inj.mp heq
  exact absurd (hnone.symm.trans hs) (by simp)

/-- The second of two segments arrives first. -/
theorem discarded_was_taken_overtaken :
    ∃ (owner : UInt32 → Bool) (n : Network Bool) (k : ConnectionKey), n.Reached owner ∧
      (n.party k.mirror).conn.oooBuffer.lookup 1004 = some [4, 5] ∧
      ∀ m ∈ (n.party k).hist.out, m.seq < (n.party k.mirror).conn.rcvNxt →
        m.seq.toNat + seqLen m.flags m.data.length ≤ (n.party k.mirror).conn.rcvNxt.toNat := by
  let owner (addr : UInt32) : Bool := addr == 2
  let k : ConnectionKey := ⟨1, 49152, 2, 80⟩
  let n₁ : Network Bool := ((start.act true (.listen 2 80 false)).act false
    (.connect 0 1000 1 2 80)).deliver owner 0 5000 0
  let n₂ := ((n₁.deliver owner 0 0 1).act false (.send 0 k [1, 2, 3])).act false (.send 0 k [4, 5])
  let n₃ := n₂.deliver owner 0 0 4
  have h₁ : n₁.Reached owner :=
    (((reached_start owner).act true (.listen 2 80 false) trivial).act false
      (.connect 0 1000 1 2 80) rfl).deliver 0 5000 0
  have h₃ : n₃.Reached owner :=
    (((h₁.deliver 0 0 1).act false (.send 0 k [1, 2, 3]) trivial).act false
      (.send 0 k [4, 5]) trivial).deliver 0 0 4
  obtain ⟨hends, -⟩ := discarded_was_taken (k := k) h₃ (by decide +kernel) (by decide +kernel)
    (by decide +kernel) (by decide +kernel) (by decide +kernel)
  exact ⟨owner, n₃, k, h₃, by decide +kernel, hends⟩

end Network

end MiniTcp
