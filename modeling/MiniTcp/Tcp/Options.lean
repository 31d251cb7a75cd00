import MiniTcp.Tcp.SameAs

/-!
# TCP options

`handle_segment` takes everything after the first 20 bytes for data and never looks at
the data offset.  A segment with options is treated like the same segment without them
exactly where the data is not read, or where the receiving half makes the same of both: an
old segment that is acknowledged either way, or one ahead that is stored neither way.
-/

namespace MiniTcp

def TcpHeader.dataOffset (hdr : TcpHeader) : ℕ := (hdr.dataOffsetReserved >>> 4).toNat

/-- Another data offset and checksum: two fields nothing after the checksum test reads. -/
def TcpHeader.restamp (hdr : TcpHeader) (offset : UInt8) (csum : UInt16) : TcpHeader :=
  { hdr with dataOffsetReserved := offset, checksum := csum }

namespace TcpConnection

variable (c : TcpConnection) (seg : TcpHeader) (offset : UInt8) (csum : UInt16)

theorem processAck_restamp : c.processAck (seg.restamp offset csum) = c.processAck seg := rfl

theorem receive_restamp (payload : Bytes) :
    c.receiveDataAndMaybeFin (seg.restamp offset csum) payload =
      c.receiveDataAndMaybeFin seg payload := rfl

theorem processSegment_restamp (now : Instant) (payload : Bytes) :
    c.processSegment now (seg.restamp offset csum) payload =
      c.processSegment now seg payload := by
  have hflags : (seg.restamp offset csum).flags = seg.flags := rfl
  have hack : (seg.restamp offset csum).ackNum = seg.ackNum := rfl
  unfold processSegment
  rw [hflags]
  split_ifs
  · rfl
  cases c.state with
  | synSent => rfl
  | synRcvd =>
      simp only [synRcvdSegment, receive_restamp]
      rfl
  | established =>
      unfold establishedSegment
      rw [processAck_restamp, receive_restamp]
  | finWait1 =>
      dsimp only [finWait1Segment]
      rw [processAck_restamp, receive_restamp, hflags, hack]
  | finWait2 =>
      unfold finWait2Segment
      rw [processAck_restamp, receive_restamp]
  | closing =>
      unfold closingSegment
      rw [processAck_restamp, hflags, hack]
  | closeWait =>
      unfold closeWaitSegment
      rw [processAck_restamp]
  | lastAck =>
      unfold lastAckSegment
      rw [processAck_restamp, hflags, hack]
  | timeWait =>
      unfold timeWaitSegment
      rw [hflags]
  | closed | listen => rfl

/-! ## The receiving half -/

/-- Storing `data` at `seq` leaves `ooo_buffer` as it is: it is empty, there is no room, or
it is stored there already. -/
def KeepsOoo (c : TcpConnection) (seq : UInt32) (data : Bytes) : Prop :=
  data = [] ∨ c.recvBufferCap < c.bufferedBytes + data.length ∨
    c.oooBuffer.lookup seq = some data

/-- It does not matter whether the segment carries `raw` or `real`: it is old and answered
either way, or ahead and stored neither way. -/
def SameEitherWay (c : TcpConnection) (seg : TcpHeader) (raw real : Bytes) : Prop :=
  seg.seqNum < c.rcvNxt ∧ (real ≠ [] ∨ hasFlag seg.flags tcpFin) ∨
    c.rcvNxt < seg.seqNum ∧ c.KeepsOoo seg.seqNum raw ∧ c.KeepsOoo seg.seqNum real

variable {c seg} {c' : TcpConnection} {data raw real : Bytes}

theorem sameEitherWay_congr (h : c'.inbound = c.inbound) :
    c'.SameEitherWay seg raw real ↔ c.SameEitherWay seg raw real := by
  obtain ⟨-, hnxt, hooo, -, hcap⟩ := inbound_eq_iff.mp h
  rw [SameEitherWay, SameEitherWay, KeepsOoo, KeepsOoo, KeepsOoo, KeepsOoo,
    bufferedBytes_congr h, hnxt, hooo, hcap]

theorem sameEitherWay_of_lt (hlt : seg.seqNum < c.rcvNxt) :
    c.SameEitherWay seg raw real ↔ real ≠ [] ∨ hasFlag seg.flags tcpFin :=
  (or_iff_left fun h ↦ UInt32.lt_asymm hlt h.1).trans (and_iff_right hlt)

theorem sameEitherWay_of_gt (hgt : c.rcvNxt < seg.seqNum) :
    c.SameEitherWay seg raw real ↔
      c.KeepsOoo seg.seqNum raw ∧ c.KeepsOoo seg.seqNum real :=
  (or_iff_right fun h ↦ UInt32.lt_asymm hgt h.1).trans (and_iff_right hgt)

theorem ne_of_ahead (h : c.rcvNxt < seg.seqNum) : seg.seqNum ≠ c.rcvNxt :=
  fun heq ↦ UInt32.lt_irrefl _ (heq ▸ h)

theorem receive_of_keepsOoo (hgt : c.rcvNxt < seg.seqNum) (h : c.KeepsOoo seg.seqNum data) :
    (c.receiveDataAndMaybeFin seg data).conn.SameAs c := by
  rw [(receive_of_gt data (ne_of_ahead hgt) hgt).1]
  split_ifs with hroom
  · rw [Bool.and_eq_true, Bool.not_eq_true', decide_eq_true_eq] at hroom
    rcases h with rfl | hfull | hstored
    · cases hroom.1
    · omega
    · exact ⟨AssocMap.lookup_insert_of_lookup hstored, rfl⟩
  · exact .refl c

theorem receive_of_not_keepsOoo (hgt : c.rcvNxt < seg.seqNum)
    (h : ¬ c.KeepsOoo seg.seqNum data) :
    (c.receiveDataAndMaybeFin seg data).conn.oooBuffer.lookup seg.seqNum = some data := by
  rw [KeepsOoo, not_or, not_or, not_lt] at h
  obtain ⟨hdata, hroom, -⟩ := h
  rw [(receive_of_gt data (ne_of_ahead hgt) hgt).1, if_pos (by simp [hdata, hroom])]
  exact AList.lookup_insert _

/-- Two segments ahead with different data leave the same `ooo_buffer` only if neither
changes it. -/
theorem keepsOoo_of_receive (hgt : c.rcvNxt < seg.seqNum) (hne : raw ≠ real)
    (h : (c.receiveDataAndMaybeFin seg raw).conn.oooBuffer.lookup seg.seqNum =
      (c.receiveDataAndMaybeFin seg real).conn.oooBuffer.lookup seg.seqNum) :
    c.KeepsOoo seg.seqNum raw := by
  by_contra hraw
  rw [receive_of_not_keepsOoo hgt hraw] at h
  by_cases hreal : c.KeepsOoo seg.seqNum real
  · rw [(receive_of_keepsOoo hgt hreal).ooo] at h
    exact hraw (.inr (.inr h.symm))
  · rw [receive_of_not_keepsOoo hgt hreal] at h
    exact hne (Option.some.inj h)

theorem receive_out_of_gt (hgt : c.rcvNxt < seg.seqNum) (data : Bytes) :
    (c.receiveDataAndMaybeFin seg data).out =
      [(c.receiveDataAndMaybeFin seg data).conn.sendAckOnly] := by
  rw [receiveDataAndMaybeFin, if_neg (ne_of_ahead hgt), if_pos hgt]

theorem receive_out_of_lt (hlt : seg.seqNum < c.rcvNxt) (data : Bytes) :
    (c.receiveDataAndMaybeFin seg data).out =
      if data ≠ [] ∨ hasFlag seg.flags tcpFin then [c.sendAckOnly] else [] := by
  have hne : seg.seqNum ≠ c.rcvNxt := fun heq ↦ UInt32.lt_irrefl _ (heq ▸ hlt)
  rw [receiveDataAndMaybeFin, if_neg hne,
    if_neg (UInt32.not_lt.mpr (UInt32.le_of_lt hlt))]
  simp

theorem receive_out_ne_nil (hdata : data ≠ []) : (c.receiveDataAndMaybeFin seg data).out ≠ [] := by
  unfold receiveDataAndMaybeFin
  split_ifs <;> simp [hdata]

/-- What an arm does after `receive_data_and_maybe_fin`: it leaves the receiving half alone
and does not see the order of `ooo_buffer`. -/
structure Finishes (post : TcpConnection → Bool → TcpConnection × List Emission) : Prop where
  same : ∀ {c c' : TcpConnection} (fin : Bool), c'.SameAs c →
    (post c' fin).1.SameAs (post c fin).1 ∧ (post c' fin).2 = (post c fin).2
  inbound : ∀ (c : TcpConnection) (fin : Bool), (post c fin).1.inbound = c.inbound

/-- An arm with the data it is given. -/
def runArm (post : TcpConnection → Bool → TcpConnection × List Emission) (c : TcpConnection)
    (seg : TcpHeader) (data : Bytes) : TcpConnection × List Emission :=
  let r := c.receiveDataAndMaybeFin seg data
  ((post r.conn r.fin).1, r.out ++ (post r.conn r.fin).2)

theorem runArm_of_lt (post : TcpConnection → Bool → TcpConnection × List Emission)
    (hlt : seg.seqNum < c.rcvNxt) (hraw : raw ≠ []) :
    ((runArm post c seg raw).1.SameAs (runArm post c seg real).1 ∧
      (runArm post c seg raw).2 = (runArm post c seg real).2) ↔
        real ≠ [] ∨ hasFlag seg.flags tcpFin := by
  have harm (d : Bytes) : runArm post c seg d =
      ((post c false).1, (c.receiveDataAndMaybeFin seg d).out ++ (post c false).2) := by
    obtain ⟨hconn, hfin⟩ := receive_of_lt d (UInt32.ne_of_lt hlt) (UInt32.lt_asymm hlt)
    rw [runArm, hconn, hfin]
  rw [harm, harm, receive_out_of_lt hlt, receive_out_of_lt hlt, if_pos (.inl hraw),
    List.append_left_inj, and_iff_right (SameAs.refl _)]
  by_cases h : real ≠ [] ∨ hasFlag seg.flags tcpFin
  · rw [if_pos h]
    exact iff_of_true rfl h
  · rw [if_neg h]
    exact iff_of_false (List.cons_ne_nil _ _) h

namespace Finishes

variable {post : TcpConnection → Bool → TcpConnection × List Emission}

/-- In order the two lengths are counted. -/
theorem not_runArm_of_eq (hpost : Finishes post) (heq : seg.seqNum = c.rcvNxt)
    (hlen : raw.length ≠ real.length) :
    ¬ (runArm post c seg raw).1.SameAs (runArm post c seg real).1 := by
  intro hsame
  have hbytes := hsame.bufferedBytes
  rw [runArm, runArm, bufferedBytes_congr (hpost.inbound _ _),
    bufferedBytes_congr (hpost.inbound _ _), bufferedBytes_receive_of_eq heq,
    bufferedBytes_receive_of_eq heq] at hbytes
  omega

theorem runArm_of_gt (hpost : Finishes post) (hgt : c.rcvNxt < seg.seqNum) (hne : raw ≠ real) :
    ((runArm post c seg raw).1.SameAs (runArm post c seg real).1 ∧
      (runArm post c seg raw).2 = (runArm post c seg real).2) ↔
        c.KeepsOoo seg.seqNum raw ∧ c.KeepsOoo seg.seqNum real := by
  constructor
  · rintro ⟨hsame, -⟩
    have hooo (d : Bytes) : (runArm post c seg d).1.oooBuffer =
        (c.receiveDataAndMaybeFin seg d).conn.oooBuffer :=
      (inbound_eq_iff.mp (hpost.inbound _ _)).2.2.1
    have hlook := hsame.ooo seg.seqNum
    rw [hooo, hooo] at hlook
    exact ⟨keepsOoo_of_receive hgt hne hlook, keepsOoo_of_receive hgt hne.symm hlook.symm⟩
  · rintro ⟨hraw, hreal⟩
    have hsame := (receive_of_keepsOoo hgt hraw).trans (receive_of_keepsOoo hgt hreal).symm
    obtain ⟨hconn, hout⟩ := hpost.same false hsame
    have hseq := ne_of_ahead hgt
    rw [runArm, runArm, (receive_of_gt raw hseq hgt).2, (receive_of_gt real hseq hgt).2,
      receive_out_of_gt hgt, receive_out_of_gt hgt, hsame.sendAckOnly]
    dsimp only
    exact ⟨hconn, by rw [hout]⟩

theorem runArm_same_iff (hpost : Finishes post) (hraw : raw ≠ [])
    (hlen : raw.length ≠ real.length) :
    ((runArm post c seg raw).1.SameAs (runArm post c seg real).1 ∧
      (runArm post c seg raw).2 = (runArm post c seg real).2) ↔ c.SameEitherWay seg raw real := by
  have hne : raw ≠ real := fun h ↦ hlen (congrArg List.length h)
  by_cases heq : seg.seqNum = c.rcvNxt
  · refine iff_of_false (fun h ↦ hpost.not_runArm_of_eq heq hlen h.1) ?_
    rintro (⟨h, -⟩ | ⟨h, -⟩)
    · exact UInt32.ne_of_lt h heq
    · exact UInt32.ne_of_lt h heq.symm
  · rcases UInt32.lt_or_lt_of_ne heq with hlt | hgt
    · rw [runArm_of_lt post hlt hraw, sameEitherWay_of_lt hlt]
    · rw [hpost.runArm_of_gt hgt hne, sameEitherWay_of_gt hgt]

end Finishes

/-! ## The arms that read the data -/

/-- The rest of the arm of the state `s`. -/
def finishArm (now : Instant) (seg : TcpHeader) (s : TcpState) (c : TcpConnection) (fin : Bool) :
    TcpConnection × List Emission :=
  match s with
  | .established => (if fin then { c with state := .closeWait } else c).flushSend now
  | .finWait1 =>
      let ourFinAcked := hasFlag seg.flags tcpAck && seg.ackNum == c.sndNxt
      (if ourFinAcked && fin then c.enterTimeWait now
        else if ourFinAcked then { c with state := .finWait2 }
        else if fin then { c with state := .closing }
        else c, [])
  | .finWait2 => (if fin then c.enterTimeWait now else c, [])
  | .synRcvd => (if fin then { c with state := .closeWait } else c, [])
  | _ => (c, [])

theorem finishes_finishArm (now : Instant) (seg : TcpHeader) (s : TcpState) :
    Finishes (finishArm now seg s) where
  same := by
    intro c c' fin h
    have hnxt : c'.sndNxt = c.sndNxt := by rw [h.rest]
    cases s with
    | established =>
        cases fin with
        | true => exact (h.withState .closeWait).flushSend now
        | false => exact h.flushSend now
    | finWait1 =>
        refine ⟨?_, rfl⟩
        have hacked : (hasFlag seg.flags tcpAck && seg.ackNum == c'.sndNxt) =
            (hasFlag seg.flags tcpAck && seg.ackNum == c.sndNxt) := by rw [hnxt]
        dsimp only [finishArm]
        rw [hacked]
        split_ifs
        · exact h.enterTimeWait now
        · exact h.withState .finWait2
        · exact h.withState .closing
        · exact h
    | finWait2 =>
        cases fin with
        | true => exact ⟨h.enterTimeWait now, rfl⟩
        | false => exact ⟨h, rfl⟩
    | synRcvd =>
        cases fin with
        | true => exact ⟨h.withState .closeWait, rfl⟩
        | false => exact ⟨h, rfl⟩
    | closed | listen | synSent | closing | timeWait | closeWait | lastAck => exact ⟨h, rfl⟩
  inbound := by
    intro c fin
    cases s with
    | established =>
        rw [finishArm, flushSend_inbound]
        split_ifs <;> rfl
    | finWait1 =>
        dsimp only [finishArm]
        split_ifs <;> rfl
    | finWait2 | synRcvd => cases fin <;> rfl
    | closed | listen | synSent | closing | timeWait | closeWait | lastAck => rfl

theorem processSegment_of_receives (now : Instant) (data : Bytes) (hst : c.state.receives)
    (hrst : ¬ hasFlag seg.flags tcpRst) :
    c.processSegment now seg data =
      ⟨(runArm (finishArm now seg c.state) (c.processAck seg) seg data).1,
        (runArm (finishArm now seg c.state) (c.processAck seg) seg data).2, false,
        ((c.processAck seg).receiveDataAndMaybeFin seg data).fin⟩ := by
  unfold processSegment
  rw [if_neg fun h ↦ hrst h.1]
  obtain ⟨nxt, buf, ooo, hconn⟩ := receive_eq (c.processAck seg) seg data
  cases hs : c.state with
  | established =>
      dsimp only [establishedSegment, runArm, finishArm]
  | finWait1 =>
      have hnxt : ((c.processAck seg).receiveDataAndMaybeFin seg data).conn.sndNxt =
          (c.processAck seg).sndNxt := by rw [hconn]
      dsimp only [finWait1Segment, runArm, finishArm]
      rw [hnxt, List.append_nil]
  | finWait2 =>
      dsimp only [finWait2Segment, runArm, finishArm]
      rw [List.append_nil]
  | closed | listen | synSent | synRcvd | closing | timeWait | closeWait | lastAck =>
      rw [hs] at hst
      cases hst

/-- The connection that the end of the passive handshake makes. -/
def handshaken (c : TcpConnection) (seg : TcpHeader) : TcpConnection :=
  { removeAcked { c with sndUna := seg.ackNum } seg.ackNum with
    sndWnd := seg.window.toUInt32, state := .established }

theorem processSegment_of_synRcvd (now : Instant) (data : Bytes) (hst : c.state = .synRcvd)
    (hrst : ¬ hasFlag seg.flags tcpRst) (hack : hasFlag seg.flags tcpAck)
    (hnum : seg.ackNum = c.sndNxt) :
    c.processSegment now seg data =
      if data ≠ [] ∨ hasFlag seg.flags tcpFin then
        ⟨(runArm (finishArm now seg .synRcvd) (c.handshaken seg) seg data).1,
          (runArm (finishArm now seg .synRcvd) (c.handshaken seg) seg data).2, true,
          ((c.handshaken seg).receiveDataAndMaybeFin seg data).fin⟩
      else ⟨c.handshaken seg, [], true, false⟩ := by
  unfold processSegment
  rw [if_neg fun h ↦ hrst h.1, hst]
  dsimp only [synRcvdSegment, runArm, finishArm]
  rw [if_pos (by simp [hack, hnum]), List.append_nil]
  simp only [Bool.or_eq_true, Bool.not_eq_true', List.isEmpty_eq_false_iff]
  rfl

/-- The arm that takes the segment looks at its data. -/
def Reads (c : TcpConnection) (seg : TcpHeader) : Prop :=
  c.state.receives ∨ c.state = .synRcvd ∧ hasFlag seg.flags tcpAck ∧ seg.ackNum = c.sndNxt

/-- The option bytes in `raw` make no difference: `SameEitherWay`, and the end of a handshake
is not taken for one with data. -/
def SparesOptions (c : TcpConnection) (seg : TcpHeader) (raw real : Bytes) : Prop :=
  (c.state = .synRcvd → real ≠ [] ∨ hasFlag seg.flags tcpFin) ∧ c.SameEitherWay seg raw real

theorem processSegment_same_iff (now : Instant) (hreads : c.Reads seg)
    (hrst : ¬ hasFlag seg.flags tcpRst) (hraw : raw ≠ []) (hlen : raw.length ≠ real.length) :
    ((c.processSegment now seg raw).conn.SameAs (c.processSegment now seg real).conn ∧
      (c.processSegment now seg raw).out = (c.processSegment now seg real).out) ↔
        c.SparesOptions seg raw real := by
  rcases hreads with hst | ⟨hst, hack, hnum⟩
  · have hne : c.state ≠ .synRcvd := by
      intro h
      rw [h] at hst
      cases hst
    rw [processSegment_of_receives now raw hst hrst, processSegment_of_receives now real hst hrst]
    rw [SparesOptions, and_iff_right fun h ↦ absurd h hne,
      ← sameEitherWay_congr (c.processAck_inbound seg)]
    exact (finishes_finishArm now seg c.state).runArm_same_iff hraw hlen
  · rw [processSegment_of_synRcvd now raw hst hrst hack hnum,
      processSegment_of_synRcvd now real hst hrst hack hnum, if_pos (.inl hraw)]
    split_ifs with hreal
    · rw [SparesOptions, and_iff_right fun _ ↦ hreal]
      exact (finishes_finishArm now seg .synRcvd).runArm_same_iff hraw hlen
    · refine iff_of_false ?_ fun h ↦ hreal (h.1 hst)
      rintro ⟨-, hout⟩
      exact receive_out_ne_nil hraw (List.append_eq_nil_iff.mp hout).1

theorem enqueue_of_reads (now : Instant) (data data' : Bytes) (hreads : c.Reads seg)
    (hrst : ¬ hasFlag seg.flags tcpRst) :
    (c.processSegment now seg data).enqueue = (c.processSegment now seg data').enqueue := by
  rcases hreads with hst | ⟨hst, hack, hnum⟩
  · rw [processSegment_of_receives now data hst hrst,
      processSegment_of_receives now data' hst hrst]
  · rw [processSegment_of_synRcvd now data hst hrst hack hnum,
      processSegment_of_synRcvd now data' hst hrst hack hnum]
    split_ifs <;> rfl

theorem open_of_reads (now : Instant) (data : Bytes) (hreads : c.Reads seg)
    (hrst : ¬ hasFlag seg.flags tcpRst) : (c.processSegment now seg data).conn.state ≠ .closed := by
  rcases hreads with hst | ⟨hst, hack, hnum⟩
  · exact (processSegment_inbound now data hst hrst).2.2.2
  · have hstate := receive_state (c.handshaken seg) seg data
    rw [processSegment_of_synRcvd now data hst hrst hack hnum]
    dsimp only [runArm, finishArm]
    split_ifs
    · exact TcpState.noConfusion
    · rw [hstate]
      exact TcpState.noConfusion
    · exact TcpState.noConfusion

end TcpConnection

namespace TcpTable

variable {t : TcpTable} {now : Instant} {iss : UInt32} {ipHdr : IpHeader} {seg : TcpHeader}
  {payload data : Bytes}

/-- The segment with its options cut out: data offset 5 and a new checksum. -/
def withoutOptions (ipHdr : IpHeader) (seg : TcpHeader) (payload : Bytes) : Packet where
  srcAddr := ipHdr.srcAddr
  dstAddr := ipHdr.dstAddr
  hdr :=
    { seg with
      dataOffsetReserved := ((5 : UInt8) <<< 4) ||| (seg.dataOffsetReserved &&& 0x0F)
      checksum := 0 }
  data := payload.drop (4 * seg.dataOffset)

/-- The arm that takes the segment looks at its data: one of the receiving states, the
end of a passive handshake, or a reset that has to acknowledge the segment. -/
def ReadsData (t : TcpTable) (ipHdr : IpHeader) (seg : TcpHeader) : Prop :=
  ¬ hasFlag seg.flags tcpRst ∧
    match t.lookup (segmentKey ipHdr seg) with
    | some c => c.Reads seg
    | none => ¬ hasFlag seg.flags tcpAck ∧
        ¬ (hasFlag seg.flags tcpSyn ∧ (ipHdr.dstAddr, seg.dstPort) ∈ t.listeners)

theorem processSegment_data_irrelevant (now : Instant) {c : TcpConnection} (data data' : Bytes)
    (h : hasFlag seg.flags tcpRst ∨ ¬ c.state.receives ∧
      ¬ (c.state = .synRcvd ∧ hasFlag seg.flags tcpAck ∧ seg.ackNum = c.sndNxt)) :
    c.processSegment now seg data = c.processSegment now seg data' := by
  unfold TcpConnection.processSegment
  split_ifs with hrst
  · rfl
  cases hs : c.state with
  | established | finWait1 | finWait2 =>
      rcases h with h | ⟨h, -⟩
      · exact absurd ⟨h, by simp [hs], by simp [hs]⟩ hrst
      · exact absurd (by rw [hs]; rfl) h
  | synRcvd =>
      have hno : ¬ (hasFlag seg.flags tcpAck && seg.ackNum == c.sndNxt) = true := by
        intro hack
        rw [Bool.and_eq_true, beq_iff_eq] at hack
        rcases h with h | ⟨-, h⟩
        · exact hrst ⟨h, by simp [hs], by simp [hs]⟩
        · exact h ⟨hs, hack⟩
      simp only [TcpConnection.synRcvdSegment]
      rw [if_neg hno, if_neg hno]
  | _ => rfl

theorem demux_data_irrelevant (data data' : Bytes) (h : ¬ t.ReadsData ipHdr seg) :
    t.demux now iss ipHdr seg data = t.demux now iss ipHdr seg data' := by
  rw [ReadsData, not_and_or, not_not] at h
  unfold demux
  dsimp only
  cases hc : t.lookup (segmentKey ipHdr seg) with
  | some c =>
      rw [hc] at h
      have hsame := processSegment_data_irrelevant now (c := c) data data' (h.imp_right not_or.mp)
      dsimp only
      unfold processSegment
      rw [hsame]
  | none =>
      rw [hc] at h
      dsimp only at h ⊢
      split_ifs with hsyn hrst
      · rfl
      · rfl
      · have hack : hasFlag seg.flags tcpAck := by tauto
        simp [sendRstForUnknown, hack]

theorem demux_restamp (t : TcpTable) (now : Instant) (iss : UInt32) (ipHdr : IpHeader)
    (seg : TcpHeader) (data : Bytes) (offset : UInt8) (csum : UInt16) :
    t.demux now iss ipHdr (seg.restamp offset csum) data = t.demux now iss ipHdr seg data := by
  have hkey : segmentKey ipHdr (seg.restamp offset csum) = segmentKey ipHdr seg := rfl
  have hflags : (seg.restamp offset csum).flags = seg.flags := rfl
  have hport : (seg.restamp offset csum).dstPort = seg.dstPort := rfl
  have hopen (key : ConnectionKey) : TcpConnection.passiveOpen now iss key
      (seg.restamp offset csum) = TcpConnection.passiveOpen now iss key seg := rfl
  have hrst : sendRstForUnknown ipHdr (seg.restamp offset csum) data.length =
      sendRstForUnknown ipHdr seg data.length := rfl
  simp only [demux, processSegment, TcpConnection.processSegment_restamp, hkey, hflags, hport,
    hopen, hrst]

theorem acceptedSegment_withoutOptions (hd : 5 ≤ seg.dataOffset) (hlen : payload.length ≤ 131062) :
    acceptedSegment ipHdr (withoutOptions ipHdr seg payload).segment =
      some (seg.restamp (withoutOptions ipHdr seg payload).hdr.dataOffsetReserved
          (withoutOptions ipHdr seg payload).checksum,
        payload.drop (4 * seg.dataOffset)) := by
  have hmax : (withoutOptions ipHdr seg payload).data.length ≤ 131042 := by
    simp only [withoutOptions, List.length_drop]
    omega
  have hsum := Packet.tcpChecksum_segment hmax
  rw [acceptedSegment, Packet.parse_segment, Packet.drop_segment,
    if_neg (by simp [Packet.length_segment])]
  dsimp only
  rw [if_neg (by simpa [withoutOptions] using hsum)]
  rfl

theorem demux_of_lookup {c : TcpConnection} (hc : t.lookup (segmentKey ipHdr seg) = some c)
    (data : Bytes) :
    t.demux now iss ipHdr seg data =
      (((if (c.processSegment now seg data).enqueue then
            t.pushAccept (c.localAddr, c.localPort) (segmentKey ipHdr seg)
          else t).setConnection (segmentKey ipHdr seg)
            (c.processSegment now seg data).conn).cleanupClosedConnections,
        (c.processSegment now seg data).out) := by
  unfold demux
  dsimp only
  rw [hc]
  dsimp only [processSegment]
  split_ifs <;> rfl

theorem demux_same_iff {c : TcpConnection} {raw real : Bytes}
    (hc : t.lookup (segmentKey ipHdr seg) = some c) (hreads : c.Reads seg)
    (hrst : ¬ hasFlag seg.flags tcpRst) (hraw : raw ≠ []) (hlen : raw.length ≠ real.length) :
    ((t.demux now iss ipHdr seg raw).1.SameAs (t.demux now iss ipHdr seg real).1 ∧
      (t.demux now iss ipHdr seg raw).2 = (t.demux now iss ipHdr seg real).2) ↔
        c.SparesOptions seg raw real := by
  rw [demux_of_lookup hc, demux_of_lookup hc, c.enqueue_of_reads now raw real hreads hrst,
    sameAs_setConnection_iff (c.open_of_reads now raw hreads hrst)
      (c.open_of_reads now real hreads hrst)]
  exact c.processSegment_same_iff now hreads hrst hraw hlen

theorem consumed_injective (flags : UInt8) {n m : ℕ} (hn : n < 2 ^ 32) (hm : m < 2 ^ 32)
    (h : consumed flags n = consumed flags m) : n = m := by
  have hof : UInt32.ofNat n = UInt32.ofNat m := by
    unfold consumed at h
    dsimp only at h
    split_ifs at h <;> simpa using h
  have hnat := congrArg UInt32.toNat hof
  rwa [UInt32.toNat_ofNat_of_lt' hn, UInt32.toNat_ofNat_of_lt' hm] at hnat

/-- A reset for an unknown connection counts the bytes. -/
theorem demux_none_ne {raw real : Bytes} (hc : t.lookup (segmentKey ipHdr seg) = none)
    (hreads : t.ReadsData ipHdr seg) (hraw : raw.length < 2 ^ 32) (hreal : real.length < 2 ^ 32)
    (hlen : raw.length ≠ real.length) :
    (t.demux now iss ipHdr seg raw).2 ≠ (t.demux now iss ipHdr seg real).2 := by
  obtain ⟨hrst, hreads⟩ := hreads
  rw [hc] at hreads
  obtain ⟨hack, hlisten⟩ := hreads
  have hreset (d : Bytes) :
      t.demux now iss ipHdr seg d = (t, [sendRstForUnknown ipHdr seg d.length]) := by
    unfold demux
    dsimp only
    rw [hc]
    dsimp only
    rw [if_neg fun h ↦ hlisten ⟨h.1, h.2.2⟩, if_neg hrst]
  rw [hreset, hreset]
  intro h
  have hnum := congrArg (fun m ↦ m.packet.hdr.ackNum) (List.head_eq_of_cons_eq h)
  simp only [sendRstForUnknown, hack, Bool.false_eq_true, if_false] at hnum
  exact hlen (consumed_injective seg.flags hraw hreal (by simpa using hnum))

theorem demux_same_iff_of_readsData {raw real : Bytes} (hreads : t.ReadsData ipHdr seg)
    (hraw : raw ≠ []) (hlen : raw.length ≠ real.length) (hrawlen : raw.length < 2 ^ 32)
    (hreallen : real.length < 2 ^ 32) :
    ((t.demux now iss ipHdr seg raw).1.SameAs (t.demux now iss ipHdr seg real).1 ∧
      (t.demux now iss ipHdr seg raw).2 = (t.demux now iss ipHdr seg real).2) ↔
        ∃ c, t.lookup (segmentKey ipHdr seg) = some c ∧ c.SparesOptions seg raw real := by
  cases hc : t.lookup (segmentKey ipHdr seg) with
  | none =>
      refine iff_of_false (fun h ↦ demux_none_ne hc hreads hrawlen hreallen hlen h.2) ?_
      rintro ⟨c, ⟨⟩, -⟩
  | some c =>
      obtain ⟨hrst, hread⟩ := hreads
      rw [hc] at hread
      rw [demux_same_iff hc hread hrst hraw hlen]
      constructor
      · exact fun h ↦ ⟨c, rfl, h⟩
      · rintro ⟨c', heq, h⟩
        rwa [Option.some.inj heq]

/-- Options make no difference exactly to a segment that has none, to one whose data is not
looked at, and to one of which the connection takes nothing either way. -/
theorem handleSegment_withoutOptions_iff
    (hseg : acceptedSegment ipHdr payload = some (seg, data)) (hd : 5 ≤ seg.dataOffset)
    (hfit : 4 * seg.dataOffset ≤ payload.length) (hmax : payload.length ≤ 131062) :
    ((t.handleSegment now iss ipHdr payload).1.SameAs
        (t.handleSegment now iss ipHdr (withoutOptions ipHdr seg payload).segment).1 ∧
      (t.handleSegment now iss ipHdr payload).2 =
        (t.handleSegment now iss ipHdr (withoutOptions ipHdr seg payload).segment).2) ↔
    seg.dataOffset = 5 ∨ ¬ t.ReadsData ipHdr seg ∨
      ∃ c, t.lookup (segmentKey ipHdr seg) = some c ∧
        c.SparesOptions seg data (payload.drop (4 * seg.dataOffset)) := by
  have hdata := (acceptedSegment_spec hseg).2.2
  have hequal {d d' : Bytes}
      (h : t.demux now iss ipHdr seg d = t.demux now iss ipHdr seg d') :
      (t.demux now iss ipHdr seg d).1.SameAs (t.demux now iss ipHdr seg d').1 ∧
        (t.demux now iss ipHdr seg d).2 = (t.demux now iss ipHdr seg d').2 := by
    rw [h]
    exact ⟨.refl _, rfl⟩
  rw [handleSegment, handleSegment, hseg, acceptedSegment_withoutOptions hd hmax]
  dsimp only
  rw [demux_restamp]
  by_cases hfive : seg.dataOffset = 5
  · refine iff_of_true (hequal ?_) (.inl hfive)
    rw [hdata, hfive]
    rfl
  by_cases hreads : t.ReadsData ipHdr seg
  · rw [or_iff_right hfive, or_iff_right (not_not_intro hreads)]
    have hrawlen : data.length = payload.length - 20 := by
      rw [hdata, List.length_drop]
      rfl
    have hreallen : (payload.drop (4 * seg.dataOffset)).length =
        payload.length - 4 * seg.dataOffset := List.length_drop
    have hraw : data ≠ [] := by
      rintro rfl
      rw [List.length_nil] at hrawlen
      omega
    exact demux_same_iff_of_readsData hreads hraw (by omega) (by omega) (by omega)
  · exact iff_of_true (hequal (demux_data_irrelevant _ _ hreads)) (.inr (.inl hreads))

/-- An old segment with four option bytes: acknowledged as it is without them. -/
theorem handleSegment_withoutOptions_old :
    ∃ (t : TcpTable) (old : Packet) (seg : TcpHeader),
      acceptedSegment old.ipHeader old.segment = some (seg, [1, 1, 1, 1, 9]) ∧
      seg.dataOffset = 6 ∧ t.ReadsData old.ipHeader seg ∧
      (t.handleSegment 0 0 old.ipHeader old.segment).1.SameAs
        (t.handleSegment 0 0 old.ipHeader
          (withoutOptions old.ipHeader seg old.segment).segment).1 ∧
      (t.handleSegment 0 0 old.ipHeader old.segment).2 =
        (t.handleSegment 0 0 old.ipHeader
          (withoutOptions old.ipHeader seg old.segment).segment).2 ∧
      (t.handleSegment 0 0 old.ipHeader old.segment).2.length = 1 := by
  let old : Packet := ⟨2, 1, ⟨80, 49152, 500, 1001, 96, tcpAck, 1000, 0, 0⟩, [1, 1, 1, 1, 9]⟩
  let seg : TcpHeader := { old.hdr with checksum := old.checksum }
  have hseg : acceptedSegment old.ipHeader old.segment = some (seg, [1, 1, 1, 1, 9]) := by
    decide +kernel
  have hconn : (Host.connected.table.lookup (segmentKey old.ipHeader seg)).map
      (fun c ↦ (c.state, c.rcvNxt)) = some (.established, 501) := by decide +kernel
  obtain ⟨c, hc, hfields⟩ := Option.map_eq_some_iff.mp hconn
  obtain ⟨hst, hnxt⟩ := Prod.mk.inj hfields
  have hreads : Host.connected.table.ReadsData old.ipHeader seg := by
    refine ⟨by decide +kernel, ?_⟩
    rw [hc]
    exact .inl (by rw [hst]; rfl)
  have hspares : c.SparesOptions seg [1, 1, 1, 1, 9]
      (old.segment.drop (4 * seg.dataOffset)) := by
    refine ⟨fun h ↦ ?_, .inl ⟨?_, .inl (by decide +kernel)⟩⟩
    · rw [hst] at h
      cases h
    · rw [hnxt]
      decide +kernel
  refine ⟨Host.connected.table, old, seg, hseg, by decide +kernel, hreads, ?_⟩
  rw [← and_assoc]
  exact ⟨(handleSegment_withoutOptions_iff hseg (by decide +kernel) (by decide +kernel)
    (by decide +kernel)).mpr (.inr (.inr ⟨c, hc, hspares⟩)), by decide +kernel⟩

/-- A SYN with a four-byte option to a closed port is refused with an acknowledgement
number that counts the option, and an option in a segment to an established connection is
delivered to the application. -/
theorem exists_options_received :
    ∃ (h : Host) (k : ConnectionKey) (syn data : Packet) (seg seg' : TcpHeader),
      acceptedSegment syn.ipHeader syn.segment = some (seg, [2, 4, 5, 180]) ∧
      seg.dataOffset = 6 ∧ seg.seqNum = 500 ∧
      (TcpTable.new.handleSegment 0 0 syn.ipHeader syn.segment).2.map
        (fun m ↦ m.packet.hdr.ackNum) = [505] ∧
      (TcpTable.new.handleSegment 0 0 syn.ipHeader
        (withoutOptions syn.ipHeader seg syn.segment).segment).2.map
        (fun m ↦ m.packet.hdr.ackNum) = [501] ∧
      h.Reachable {} ∧ acceptedSegment data.ipHeader data.segment = some (seg', [1, 1, 1, 1, 9]) ∧
      seg'.dataOffset = 6 ∧
      ((h.table.handleSegment 0 0 data.ipHeader data.segment).1.lookup k).map
        (fun c ↦ c.recvBuffer) = some [1, 1, 1, 1, 9] ∧
      ((h.table.handleSegment 0 0 data.ipHeader
        (withoutOptions data.ipHeader seg' data.segment).segment).1.lookup k).map
        (fun c ↦ c.recvBuffer) = some [9] := by
  let syn : Packet := ⟨1, 2, ⟨7, 80, 500, 0, 96, tcpSyn, 1000, 0, 0⟩, [2, 4, 5, 180]⟩
  let data : Packet := ⟨2, 1, ⟨80, 49152, 501, 1001, 96, tcpAck, 1000, 0, 0⟩, [1, 1, 1, 1, 9]⟩
  exact ⟨Host.connected, ⟨1, 49152, 2, 80⟩, syn, data, { syn.hdr with checksum := syn.checksum },
    { data.hdr with checksum := data.checksum }, by decide +kernel, by decide +kernel, rfl,
    by decide +kernel, by decide +kernel, Host.reachable_connected, by decide +kernel,
    by decide +kernel, by decide +kernel, by decide +kernel⟩

end TcpTable

end MiniTcp
