import MiniTcp.Tcp.Host
import MiniTcp.Tcp.Inbound
import MiniTcp.Tcp.Receiver

/-!
# Segments that overlap what is there

`receive_data_and_maybe_fin` compares the number of a segment with `rcv_nxt` and with the
keys of `ooo_buffer`, and looks at nothing else.  A segment that starts before `rcv_nxt`
is dropped with everything new it carries, a FIN included; and an entry of `ooo_buffer`
whose start was covered by another segment is never looked up again.  Both are
behaviours of cuts that overlap: where a segment starts at `rcv_nxt` it is taken whole,
and where the segments that are kept are disjoint everything buffered lies ahead.
-/

namespace MiniTcp

open Serial

namespace TcpConnection

variable {c c' : TcpConnection} {seg : TcpHeader} {data : Bytes}

/-! ## A segment that contains `rcv_nxt` -/

/-- The number behind the segment. -/
def segmentEnd (seg : TcpHeader) (data : Bytes) : ℕ :=
  seg.seqNum.toNat + data.length + (hasFlag seg.flags tcpFin).toNat

/-- Everything of the segment that was not received yet has been taken. -/
structure TakesRest (c : TcpConnection) (seg : TcpHeader) (data : Bytes) (c' : TcpConnection) :
    Prop where
  next : segmentEnd seg data ≤ c'.rcvNxt.toNat
  bytes : c.recvBuffer ++ data.drop (c.rcvNxt.toNat - seg.seqNum.toNat) <+: c'.recvBuffer
  fin : hasFlag seg.flags tcpFin → c'.state.receives = false

theorem takesRest_processSegment (now : Instant) (hst : c.state.receives)
    (hrst : ¬ hasFlag seg.flags tcpRst) (heq : seg.seqNum = c.rcvNxt)
    (hwrap : segmentEnd seg data < 2 ^ 32)
    (hp : ∀ s d, c.oooBuffer.lookup s = some d → s.toNat + d.length + 1 < 2 ^ 32) :
    c.TakesRest seg data (c.processSegment now seg data).conn := by
  obtain ⟨hin, -, hstate, -⟩ := processSegment_inbound now data hst hrst
  obtain ⟨-, hnxt, -, hbuf, -⟩ := inbound_eq_iff.mp hin
  obtain ⟨hconn, hfin⟩ := receive_of_eq data heq
  obtain ⟨bytes, hmore, -⟩ := splice_appends c.oooBuffer.entries.length (c.appendInOrder data)
  have happ : (c.appendInOrder data).rcvNxt.toNat = seg.seqNum.toNat + data.length := by
    have hlt : c.rcvNxt.toNat + data.length < 2 ^ 32 := by
      unfold segmentEnd at hwrap
      rw [heq] at hwrap
      omega
    rw [heq]
    exact toNat_shift hlt
  unfold segmentEnd at hwrap
  constructor
  · unfold segmentEnd
    rw [hnxt, hconn]
    cases hflag : hasFlag seg.flags tcpFin with
    | false =>
        have hle := (rcvNxt_splice c.oooBuffer.entries.length 0 (UInt32.toNat_lt _) fun s d hs ↦
          Nat.lt_of_succ_lt (hp s d hs) : (c.appendInOrder data).rcvNxt.toNat ≤ _ ∧ _).1
        rw [happ] at hle
        exact hle
    | true =>
        rw [hflag] at hwrap
        have hle := (rcvNxt_splice c.oooBuffer.entries.length 1 (by rw [happ]; exact hwrap)
          hp : (c.appendInOrder data).rcvNxt.toNat ≤ _ ∧ _)
        rw [happ] at hle
        have hone := toNat_shift hle.2
        simp only [if_true, Bool.toNat_true]
        rw [add_one, hone]
        omega
  · rw [hbuf, hconn, heq, Nat.sub_self, List.drop_zero]
    refine ⟨bytes, ?_⟩
    rw [show c.recvBuffer ++ data = (c.appendInOrder data).recvBuffer from rfl, ← hmore]
    dsimp only
    split_ifs <;> rfl
  · intro hflag
    rw [hstate, hfin, hflag]
    rfl

theorem not_takesRest_processSegment (now : Instant) (hst : c.state.receives)
    (hrst : ¬ hasFlag seg.flags tcpRst) (hlt : seg.seqNum < c.rcvNxt)
    (hmore : c.rcvNxt.toNat < segmentEnd seg data) :
    ¬ c.TakesRest seg data (c.processSegment now seg data).conn := by
  intro h
  obtain ⟨hin, -⟩ := processSegment_inbound now data hst hrst
  obtain ⟨-, hnxt, -⟩ := inbound_eq_iff.mp hin
  have hne : seg.seqNum ≠ c.rcvNxt := by
    intro heq
    rw [heq] at hlt
    exact UInt32.lt_irrefl _ hlt
  have hnext := h.next
  rw [hnxt, (receive_of_lt data hne (UInt32.not_lt.mpr (UInt32.le_of_lt hlt))).1] at hnext
  omega

end TcpConnection

namespace TcpTable

variable {t : TcpTable} {c : TcpConnection} {ipHdr : IpHeader} {payload data : Bytes}
  {seg : TcpHeader}

/-- A segment that contains `rcv_nxt` makes progress exactly when it starts there. -/
theorem takesRest_iff (now : Instant) (iss : UInt32)
    (hseg : acceptedSegment ipHdr payload = some (seg, data))
    (hc : t.lookup (segmentKey ipHdr seg) = some c) (hst : c.state.receives)
    (hrst : ¬ hasFlag seg.flags tcpRst) (hle : seg.seqNum ≤ c.rcvNxt)
    (hlt : c.rcvNxt.toNat < TcpConnection.segmentEnd seg data)
    (hwrap : TcpConnection.segmentEnd seg data < 2 ^ 32)
    (hp : ∀ s d, c.oooBuffer.lookup s = some d → s.toNat + d.length + 1 < 2 ^ 32) :
    (∃ c', (t.handleSegment now iss ipHdr payload).1.lookup (segmentKey ipHdr seg) = some c' ∧
        c.TakesRest seg data c') ↔ seg.seqNum = c.rcvNxt := by
  have hopen := (TcpConnection.processSegment_inbound now data hst hrst).2.2.2
  have hlook : (t.handleSegment now iss ipHdr payload).1.lookup (segmentKey ipHdr seg) =
      some (c.processSegment now seg data).conn := by
    have hafter : c.after (if segmentKey ipHdr seg = segmentKey ipHdr seg then
        some (.segment now seg data) else none) = (c.processSegment now seg data).conn := by
      rw [if_pos rfl]
      rfl
    unfold handleSegment
    rw [hseg]
    dsimp only
    rw [lookup_demux_of_open hc (by rw [hafter]; exact hopen), hafter]
  rw [hlook]
  constructor
  · rintro ⟨c', hc', htakes⟩
    obtain rfl := Option.some.inj hc'
    by_contra hne
    exact TcpConnection.not_takesRest_processSegment now hst hrst
      (UInt32.lt_of_le_of_ne hle hne) hlt htakes
  · intro heq
    exact ⟨_, rfl, TcpConnection.takesRest_processSegment now hst hrst heq hwrap hp⟩

/-- Data and FIN that start at `rcv_nxt`. -/
theorem takesRest_data_fin :
    ∃ (t : TcpTable) (p : Packet) (c c' : TcpConnection),
      t.lookup ⟨1, 2, 3, 4⟩ = some c ∧ c.rcvNxt = 501 ∧
      (t.handleSegment 0 0 p.ipHeader p.segment).1.lookup ⟨1, 2, 3, 4⟩ = some c' ∧
      c.TakesRest { p.hdr with checksum := p.checksum } [1, 2] c' := by
  let c : TcpConnection :=
    { TcpConnection.new 0 with
      state := .established
      localAddr := 1
      localPort := 2
      remoteAddr := 3
      remotePort := 4
      rcvNxt := 501 }
  let t : TcpTable := TcpTable.new.setConnection ⟨1, 2, 3, 4⟩ c
  let p : Packet := ⟨3, 1, ⟨4, 2, 501, 0, 80, tcpFin ||| tcpAck, 1000, 0, 0⟩, [1, 2]⟩
  have hseg : acceptedSegment p.ipHeader p.segment =
      some ({ p.hdr with checksum := p.checksum }, [1, 2]) := by
    decide +kernel
  obtain ⟨c', hc', htakes⟩ := (takesRest_iff (t := t) (c := c) 0 0 hseg rfl rfl (by decide)
    (by decide) (by decide) (by decide) (fun s d h ↦ by cases h)).mpr rfl
  exact ⟨t, p, c, c', rfl, rfl, hc', htakes⟩

/-- After `501..502`, the peer repeats from `501` on with one more byte: nothing is taken.
And data with a FIN that first came too early: the bytes are spliced in, the FIN is
forgotten, and the repetition is dropped, FIN and all. -/
theorem exists_overlap_dropped :
    ∃ (h h' : Host) (k : ConnectionKey) (t t' : Track) (p p' : Packet),
      h.Reachable {} ∧ h.tracks k = some t ∧ t.conn.state = .established ∧
        t.conn.rcvNxt = 503 ∧ p.hdr.seqNum = 501 ∧ p.data = [1, 2, 3] ∧
        ((h.step (.segment 0 0 p.ipHeader p.segment)).tracks k).map
          (fun t ↦ (t.conn.rcvNxt, t.conn.recvBuffer)) = some (503, [1, 2]) ∧
      h'.Reachable {} ∧ h'.tracks k = some t' ∧ t'.conn.state = .established ∧
        t'.conn.rcvNxt = 504 ∧ p'.hdr.seqNum = 503 ∧ p'.data = [3] ∧
        hasFlag p'.hdr.flags tcpFin ∧
        ((h'.step (.segment 0 0 p'.ipHeader p'.segment)).tracks k).map
          (fun t ↦ (t.conn.state, t.conn.rcvNxt)) = some (.established, 504) := by
  let k : ConnectionKey := ⟨1, 49152, 2, 80⟩
  let first : Packet := ⟨2, 1, ⟨80, 49152, 501, 1001, 80, tcpAck, 1000, 0, 0⟩, [1, 2]⟩
  let longer : Packet := ⟨2, 1, ⟨80, 49152, 501, 1001, 80, tcpAck, 1000, 0, 0⟩, [1, 2, 3]⟩
  let last : Packet := ⟨2, 1, ⟨80, 49152, 503, 1001, 80, tcpFin ||| tcpAck, 1000, 0, 0⟩, [3]⟩
  let h₃ := Host.connected.step (.segment 0 0 first.ipHeader first.segment)
  let h₄ := (Host.connected.step (.segment 0 0 last.ipHeader last.segment)).step
    (.segment 0 0 first.ipHeader first.segment)
  have hreach₃ : h₃.Reachable {} := Host.reachable_connected.call _
  have hreach₄ : h₄.Reachable {} := (Host.reachable_connected.call _).call _
  have hfacts₃ : (h₃.tracks k).map (fun t ↦ (t.conn.state, t.conn.rcvNxt)) =
      some (.established, 503) := by
    decide +kernel
  have hfacts₄ : (h₄.tracks k).map (fun t ↦ (t.conn.state, t.conn.rcvNxt)) =
      some (.established, 504) := by
    decide +kernel
  obtain ⟨t, ht, hval⟩ := Option.map_eq_some_iff.mp hfacts₃
  obtain ⟨hst, hnxt⟩ := Prod.mk.inj hval
  obtain ⟨t', ht', hval'⟩ := Option.map_eq_some_iff.mp hfacts₄
  obtain ⟨hst', hnxt'⟩ := Prod.mk.inj hval'
  exact ⟨h₃, h₄, k, t, t', longer, last, hreach₃, ht, hst, hnxt, rfl, rfl, by decide +kernel,
    hreach₄, ht', hst', hnxt', rfl, rfl, by decide, by decide +kernel⟩

end TcpTable

/-! ## What stays buffered -/

namespace TcpConnection

variable {c c' : TcpConnection} {seg : TcpHeader} {data : Bytes}

/-- What is buffered is not empty, lies at or beyond `rcv_nxt`, and does not overlap. -/
structure Gapped (c : TcpConnection) : Prop where
  ahead : ∀ s d, c.oooBuffer.lookup s = some d →
    d ≠ [] ∧ c.rcvNxt.toNat ≤ s.toNat ∧ s.toNat + d.length < 2 ^ 32
  apart : ∀ s d s' d', c.oooBuffer.lookup s = some d → c.oooBuffer.lookup s' = some d' → s ≠ s' →
    s.toNat + d.length ≤ s'.toNat ∨ s'.toNat + d'.length ≤ s.toNat

/-- The data is taken or kept only if it does not wrap and overlaps nothing that is buffered
under another number. -/
def Disjoint (c : TcpConnection) (seg : TcpHeader) (data : Bytes) : Prop :=
  data ≠ [] → c.rcvNxt ≤ seg.seqNum → seg.seqNum.toNat + data.length < 2 ^ 32 ∧
    ∀ s d, c.oooBuffer.lookup s = some d → s ≠ seg.seqNum →
      seg.seqNum.toNat + data.length ≤ s.toNat ∨ s.toNat + d.length ≤ seg.seqNum.toNat

/-- `rcv_nxt` moves over a stretch in which nothing is left buffered. -/
theorem Gapped.advance (h : c.Gapped)
    (hooo : ∀ s d, c'.oooBuffer.lookup s = some d → c.oooBuffer.lookup s = some d)
    (hnxt : ∀ s d, c'.oooBuffer.lookup s = some d → c'.rcvNxt.toNat ≤ s.toNat) : c'.Gapped where
  ahead s d hs := by
    obtain ⟨hne, -, hlt⟩ := h.ahead s d (hooo s d hs)
    exact ⟨hne, hnxt s d hs, hlt⟩
  apart s d s' d' hs hs' := h.apart s d s' d' (hooo s d hs) (hooo s' d' hs')

theorem Gapped.splice (fuel : ℕ) (h : c.Gapped) : (splice fuel c).1.Gapped := by
  induction fuel generalizing c with
  | zero => exact h
  | succ fuel ih =>
      rw [TcpConnection.splice]
      cases hlook : c.oooBuffer.lookup c.rcvNxt with
      | none => exact h
      | some d =>
          have herase (s : UInt32) (d' : Bytes)
              (hs : (AList.erase c.rcvNxt c.oooBuffer).lookup s = some d') :
              s ≠ c.rcvNxt ∧ c.oooBuffer.lookup s = some d' := by
            rw [AssocMap.lookup_erase_eq] at hs
            split_ifs at hs with hne
            exact ⟨hne, hs⟩
          refine ih (h.advance (fun s d' hs ↦ (herase s d' hs).2) fun s d' hs ↦ ?_)
          obtain ⟨hne, hs⟩ := herase s d' hs
          obtain ⟨hd', hle, -⟩ := h.ahead s d' hs
          obtain ⟨-, -, hlt⟩ := h.ahead _ d hlook
          have hlen := List.length_pos_of_ne_nil hd'
          change (shift c.rcvNxt d.length).toNat ≤ s.toNat
          rw [toNat_shift hlt]
          rcases h.apart _ _ _ _ hlook hs (Ne.symm hne) with hafter | hbefore
          · exact hafter
          · omega

theorem Gapped.receive (h : c.Gapped) (hnone : c.oooBuffer.lookup c.rcvNxt = none)
    (hdis : c.Disjoint seg data) (hfin : (c.receiveDataAndMaybeFin seg data).fin = false) :
    (c.receiveDataAndMaybeFin seg data).conn.Gapped ∧
      (c.receiveDataAndMaybeFin seg data).conn.oooBuffer.lookup
        (c.receiveDataAndMaybeFin seg data).conn.rcvNxt = none := by
  by_cases heq : seg.seqNum = c.rcvNxt
  · obtain ⟨hconn, hf⟩ := receive_of_eq data heq
    rw [if_neg (by rw [← hf, hfin]; decide)] at hconn
    rw [hconn]
    refine ⟨Gapped.splice _ (h.advance (fun _ _ hs ↦ hs) fun s d hs ↦ ?_),
      lookup_splice _ _ le_rfl⟩
    obtain ⟨hne, hle, -⟩ := h.ahead s d hs
    cases data with
    | nil => simpa [appendInOrder] using hle
    | cons b data =>
        obtain ⟨hlt, hover⟩ := hdis (List.cons_ne_nil _ _) (by rw [heq]; exact UInt32.le_refl _)
        have hs' : s ≠ seg.seqNum := by
          rintro rfl
          rw [heq] at hs
          change c.oooBuffer.lookup c.rcvNxt = some d at hs
          rw [hnone] at hs
          cases hs
        have hlen := List.length_pos_of_ne_nil hne
        rw [heq] at hlt hover hs'
        change (shift c.rcvNxt (b :: data).length).toNat ≤ s.toNat
        rw [toNat_shift hlt]
        rcases hover s d hs hs' with hafter | hbefore
        · exact hafter
        · omega
  · by_cases hgt : seg.seqNum > c.rcvNxt
    · rw [(receive_of_gt data heq hgt).1]
      by_cases hroom : (!data.isEmpty && decide (c.bufferedBytes + data.length ≤ c.recvBufferCap)) =
          true
      · -- the new entry takes the place of one with its number and is clear of the others
        rw [if_pos hroom]
        rw [Bool.and_eq_true, Bool.not_eq_true'] at hroom
        have hne : data ≠ [] := by
          rintro rfl
          cases hroom.1
        obtain ⟨hlt, hover⟩ := hdis hne (UInt32.le_of_lt hgt)
        have hle : c.rcvNxt.toNat ≤ seg.seqNum.toNat :=
          UInt32.le_iff_toNat_le.mp (UInt32.le_of_lt hgt)
        have hlook (s : UInt32) : (AList.insert seg.seqNum data c.oooBuffer).lookup s =
            if s = seg.seqNum then some data else c.oooBuffer.lookup s :=
          AssocMap.lookup_insert_eq _ _ _ _
        refine ⟨⟨fun s d hs ↦ ?_, fun s d s' d' hs hs' hss ↦ ?_⟩, ?_⟩
        · rw [hlook] at hs
          split_ifs at hs with hsame
          · obtain rfl := Option.some.inj hs
            rw [hsame]
            exact ⟨hne, hle, hlt⟩
          · exact h.ahead s d hs
        · rw [hlook] at hs hs'
          split_ifs at hs with hsame <;> split_ifs at hs' with hsame'
          · exact absurd (hsame.trans hsame'.symm) hss
          · obtain rfl := Option.some.inj hs
            rw [hsame]
            exact hover s' d' hs' hsame'
          · obtain rfl := Option.some.inj hs'
            rw [hsame']
            exact (hover s d hs hsame).symm
          · exact h.apart s d s' d' hs hs' hss
        · rw [hlook, if_neg (Ne.symm heq)]
          exact hnone
      · rw [if_neg hroom]
        exact ⟨h, hnone⟩
    · rw [(receive_of_lt data heq hgt).1]
      exact ⟨h, hnone⟩

/-- Before the handshake is over nothing is buffered, and while data is received everything
buffered lies ahead. -/
structure Tidy (c : TcpConnection) : Prop where
  empty : c.state.handshake → c.oooBuffer = ∅
  gapped : c.state.receives → c.Gapped ∧ c.oooBuffer.lookup c.rcvNxt = none

theorem Tidy.keep (h : c.Tidy) (hst : c'.state = c.state) (hnxt : c'.rcvNxt = c.rcvNxt)
    (hooo : c'.oooBuffer = c.oooBuffer) : c'.Tidy where
  empty hs := hooo.trans (h.empty (hst ▸ hs))
  gapped hs := by
    obtain ⟨hgap, hnone⟩ := h.gapped (hst ▸ hs)
    refine ⟨hgap.advance (fun s d hs ↦ hooo ▸ hs) fun s d hs ↦ ?_, by rw [hooo, hnxt]; exact hnone⟩
    rw [hnxt]
    exact (hgap.ahead s d (hooo ▸ hs)).2.1

theorem tidy_of_empty (hooo : c.oooBuffer = ∅) : c.Tidy where
  empty _ := hooo
  gapped _ := by
    have hnone (s : UInt32) : c.oooBuffer.lookup s = none := by
      rw [hooo]
      rfl
    refine ⟨⟨fun s d hs ↦ ?_, fun s d s' d' hs ↦ ?_⟩, hnone _⟩ <;>
      rw [hnone] at hs <;> cases hs

theorem tidy_of_done (hshake : c.state.handshake = false) (hrec : c.state.receives = false) :
    c.Tidy where
  empty hs := by
    rw [hshake] at hs
    cases hs
  gapped hs := by
    rw [hrec] at hs
    cases hs

end TcpConnection

/-- Every piece of data that is taken in is clear of what is buffered. -/
def disjointData : Guard where
  data c seg data := c.Disjoint seg data

theorem Act.tidy {c c' : TcpConnection} {a : Effect} (h : c.Tidy) (hact : Act disjointData c a c') :
    c'.Tidy := by
  cases hact with
  | synAck hst => exact TcpConnection.tidy_of_empty (h.empty (by rw [hst]; rfl))
  | finalAck hst => exact TcpConnection.tidy_of_empty (h.empty (by rw [hst]; rfl))
  | @ack seg =>
      obtain ⟨-, hnxt, hooo, -, -⟩ :=
        TcpConnection.inbound_eq_iff.mp (TcpConnection.processAck_inbound c seg)
      exact h.keep (TcpConnection.processAck_state c seg) hnxt hooo
  | @receive seg data s deadline hrec hg hs =>
      obtain ⟨hgap, hnone⟩ := h.gapped hrec
      cases hfin : (c.receiveDataAndMaybeFin seg data).fin with
      | true =>
          rw [hfin] at hs
          rcases hs with ⟨-, rfl⟩ | ⟨-, rfl | rfl⟩ | ⟨-, rfl⟩ <;>
            exact TcpConnection.tidy_of_done rfl rfl
      | false =>
          obtain ⟨hgap', hnone'⟩ := hgap.receive hnone hg hfin
          refine ⟨fun hshake ↦ ?_, fun _ ↦ ⟨?_, hnone'⟩⟩
          · rw [(hs.handshake hrec).1] at hshake
            cases hshake
          · exact ⟨hgap'.ahead, hgap'.apart⟩
  | sendFin now s hs =>
      rcases hs with ⟨hst, rfl⟩ | ⟨-, rfl⟩
      · refine ⟨(fun hshake ↦ by cases hshake), fun _ ↦ ?_⟩
        obtain ⟨hgap, hnone⟩ := h.gapped (by rw [hst]; rfl)
        exact ⟨⟨hgap.ahead, hgap.apart⟩, hnone⟩
      · exact TcpConnection.tidy_of_done rfl rfl
  | abort | finAcked => exact TcpConnection.tidy_of_done rfl rfl
  | _ => exact h.keep rfl rfl rfl

theorem Track.Reachable.tidy {t : Track} (h : t.Reachable disjointData) : t.conn.Tidy := by
  refine h.invariant (P := fun c _ ↦ c.Tidy) ?_ fun _ _ _ _ hc hact ↦ hact.tidy hc
  rintro t (⟨now, iss, key, rfl⟩ | ⟨now, iss, key, seg, rfl⟩) <;>
    exact TcpConnection.tidy_of_empty rfl

/-- As long as the data that is kept does not overlap, everything buffered lies strictly ahead
of `rcv_nxt`. -/
theorem Host.oooBuffer_ahead {h : Host} {k : ConnectionKey} {t : Track}
    (hh : h.Reachable disjointData) (ht : h.tracks k = some t) (hst : t.conn.state.receives) :
    ∀ s d, t.conn.oooBuffer.lookup s = some d → d ≠ [] ∧ t.conn.rcvNxt < s := by
  intro s d hs
  obtain ⟨hgap, hnone⟩ := (hh.track ht).tidy.gapped hst
  obtain ⟨hne, hle, -⟩ := hgap.ahead s d hs
  refine ⟨hne, UInt32.lt_of_le_of_ne (UInt32.le_iff_toNat_le.mpr hle) ?_⟩
  rintro rfl
  rw [hnone] at hs
  cases hs

/-- The third segment is kept while the second is missing. -/
theorem Host.oooBuffer_ahead_gap :
    ∃ (h : Host) (k : ConnectionKey) (t : Track), h.tracks k = some t ∧
      t.conn.oooBuffer.lookup 503 = some [3] ∧
      ∀ s d, t.conn.oooBuffer.lookup s = some d → d ≠ [] ∧ t.conn.rcvNxt < s := by
  let k : ConnectionKey := ⟨1, 49152, 2, 80⟩
  let synAck : Packet := ⟨2, 1, ⟨80, 49152, 500, 1001, 80, tcpSyn ||| tcpAck, 1000, 0, 0⟩, []⟩
  let p : Packet := ⟨2, 1, ⟨80, 49152, 503, 1001, 80, tcpAck, 1000, 0, 0⟩, [3]⟩
  let h₁ : Host := Host.new.step (.connect 0 1000 1 2 80)
  let h₂ := h₁.step (.segment 0 0 synAck.ipHeader synAck.segment)
  let h₃ := h₂.step (.segment 0 0 p.ipHeader p.segment)
  have hsyn : TcpTable.acceptedSegment synAck.ipHeader synAck.segment =
      some ({ synAck.hdr with checksum := synAck.checksum }, []) := by
    decide +kernel
  have hseg : TcpTable.acceptedSegment p.ipHeader p.segment =
      some ({ p.hdr with checksum := p.checksum }, [3]) := by
    decide +kernel
  have hempty : (h₂.tracks k).map (fun t ↦ t.conn.oooBuffer) = some ∅ := by
    decide +kernel
  have hreach : h₃.Reachable disjointData := by
    refine .tail _ (.tail _ (.tail _ (.start rfl) ?_) ?_) ?_
    · exact Host.admits_of_call (by intros; simp) (by intros; simp)
    · refine Host.admits_segment _ _ hsyn fun t _ ↦ ⟨fun _ ↦ trivial, fun _ c' _ hne ↦ ?_⟩
      exact absurd rfl hne
    · refine Host.admits_segment _ _ hseg fun t ht ↦ ⟨fun _ ↦ trivial, fun _ c' hin _ _ ↦ ?_⟩
      have ht' : h₂.tracks k = some t := ht
      rw [ht'] at hempty
      have hooo : c'.oooBuffer = ∅ :=
        (TcpConnection.inbound_eq_iff.mp hin).2.2.1.trans (Option.some.inj hempty)
      refine ⟨by decide, fun s d hs ↦ ?_⟩
      rw [hooo] at hs
      cases hs
  have hfacts : (h₃.tracks k).map (fun t ↦ (t.conn.state, t.conn.oooBuffer.lookup 503)) =
      some (.established, some [3]) := by
    decide +kernel
  obtain ⟨t, ht, hval⟩ := Option.map_eq_some_iff.mp hfacts
  obtain ⟨hst, hlook⟩ := Prod.mk.inj hval
  exact ⟨h₃, k, t, ht, hlook, oooBuffer_ahead hreach ht (by rw [hst]; rfl)⟩

/-- The segment that fills the gap carries the buffered byte, too: the entry is left behind
`rcv_nxt` and goes on to count against the window. -/
theorem Host.exists_oooBuffer_stranded :
    ∃ (h : Host) (k : ConnectionKey) (t : Track), h.Reachable {} ∧ h.tracks k = some t ∧
      t.conn.state = .established ∧ t.conn.rcvNxt = 505 ∧
      t.conn.oooBuffer.lookup 503 = some [3] := by
  let k : ConnectionKey := ⟨1, 49152, 2, 80⟩
  let early : Packet := ⟨2, 1, ⟨80, 49152, 503, 1001, 80, tcpAck, 1000, 0, 0⟩, [3]⟩
  let whole : Packet := ⟨2, 1, ⟨80, 49152, 501, 1001, 80, tcpAck, 1000, 0, 0⟩, [1, 2, 3, 4]⟩
  let h₃ := Host.connected.step (.segment 0 0 early.ipHeader early.segment)
  let h₄ := h₃.step (.segment 0 0 whole.ipHeader whole.segment)
  have hreach : h₄.Reachable {} := (Host.reachable_connected.call _).call _
  have hfacts : (h₄.tracks k).map (fun t ↦ (t.conn.state, t.conn.rcvNxt,
      t.conn.oooBuffer.lookup 503)) = some (.established, 505, some [3]) := by
    decide +kernel
  obtain ⟨t, ht, hval⟩ := Option.map_eq_some_iff.mp hfacts
  obtain ⟨hst, hrest⟩ := Prod.mk.inj hval
  obtain ⟨hnxt, hlook⟩ := Prod.mk.inj hrest
  exact ⟨h₄, k, t, hreach, ht, hst, hnxt, hlook⟩

end MiniTcp
