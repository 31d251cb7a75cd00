import MiniTcp.Lib.Tiling
import MiniTcp.Tcp.Host
import MiniTcp.Tcp.Inbound

/-!
# Reassembly does not depend on the order of arrival

A stream is cut into segments that lie edge to edge.  Whatever has arrived, the segments
split into those taken and those left: `recv_buffer` ends with the first part, `rcv_nxt`
stands at the cut, and every segment of the second part that has arrived waits in
`ooo_buffer`.  The splice loop runs to the first segment that is missing, so once nothing
is missing the second part is empty.
-/

namespace MiniTcp

open Serial Tiling

/-- A segment as the number of its first byte and its bytes. -/
abbrev Numbered := UInt32 × Bytes

/-- The segments are not empty and lie edge to edge from `a` to `b`. -/
abbrev Cut : ℕ → ℕ → List Numbered → Prop := Tiles (fun x ↦ x.1.toNat) fun x ↦ x.2.length

namespace TcpConnection

variable {c c' : TcpConnection} {seg : TcpHeader} {old d : Bytes} {a b : ℕ}
  {taken left got : List Numbered} {x : Numbered}

/-- `taken` was delivered in order after `old`, and of `left` everything in `got` is
buffered. -/
structure Assembling (old : Bytes) (a b : ℕ) (taken left got : List Numbered)
    (c : TcpConnection) : Prop where
  front : Cut a c.rcvNxt.toNat taken
  back : Cut c.rcvNxt.toNat b left
  buffer : c.recvBuffer = old ++ taken.flatMap Prod.snd
  held : ∀ s d, c.oooBuffer.lookup s = some d → (s, d) ∈ left
  arrived : ∀ x ∈ got, x ∈ taken ∨ c.oooBuffer.lookup x.1 = some x.2

/-- The first segment of `left` is delivered. -/
theorem Assembling.advance (h : Assembling old a b taken ((c.rcvNxt, d) :: left) got c)
    (hb : b < 2 ^ 32) (hnxt : c'.rcvNxt = shift c.rcvNxt d.length)
    (hbuf : c'.recvBuffer = c.recvBuffer ++ d)
    (hnone : c'.oooBuffer.lookup c.rcvNxt = none)
    (hooo : ∀ s, s ≠ c.rcvNxt → c'.oooBuffer.lookup s = c.oooBuffer.lookup s) :
    Assembling old a b (taken ++ [(c.rcvNxt, d)]) left got c' := by
  obtain ⟨-, hlen, hleft⟩ := h.back
  change 0 < d.length at hlen
  have hnat : c'.rcvNxt.toNat = c.rcvNxt.toNat + d.length := by
    have hle := hleft.le
    rw [hnxt]
    exact toNat_shift (lt_of_le_of_lt hle hb)
  constructor
  · rw [hnat]
    exact h.front.snoc (v := (c.rcvNxt, d)) rfl hlen
  · rw [hnat]
    exact hleft
  · rw [hbuf, h.buffer, List.flatMap_append, List.append_assoc]
    simp
  · intro s d' hs
    have hne : s ≠ c.rcvNxt := by
      rintro rfl
      rw [hnone] at hs
      cases hs
    rw [hooo s hne] at hs
    rcases List.mem_cons.mp (h.held s d' hs) with heq | hmem
    · exact absurd (Prod.mk.inj heq).1 hne
    · exact hmem
  · intro x hx
    rcases h.arrived x hx with hx | hx
    · exact .inl (List.mem_append_left _ hx)
    · by_cases hne : x.1 = c.rcvNxt
      · -- it waited at `rcv_nxt`, so it is the one delivered now
        have hmem := h.held x.1 x.2 hx
        rcases List.mem_cons.mp hmem with heq | hmem
        · exact .inl (List.mem_append_right _ (List.mem_singleton.mpr heq))
        · have hbound := (hleft.bounds hmem).1
          dsimp only at hbound
          rw [hne] at hbound
          omega
      · exact .inr ((hooo x.1 hne).trans hx)

theorem Assembling.splice (hb : b < 2 ^ 32) (fuel : ℕ) (h : Assembling old a b taken left got c) :
    ∃ taken' left', taken' ++ left' = taken ++ left ∧
      Assembling old a b taken' left' got (splice fuel c).1 := by
  induction fuel generalizing c taken left with
  | zero => exact ⟨taken, left, rfl, h⟩
  | succ fuel ih =>
      rw [TcpConnection.splice]
      cases hlook : c.oooBuffer.lookup c.rcvNxt with
      | none => exact ⟨taken, left, rfl, h⟩
      | some d =>
          obtain ⟨rest, rfl⟩ := h.back.eq_cons_of_pos (h.held _ _ hlook) rfl
          have hnext : Assembling old a b (taken ++ [(c.rcvNxt, d)]) rest got
              (appendInOrder d { c with oooBuffer := AList.erase c.rcvNxt c.oooBuffer }) := by
            refine h.advance hb rfl rfl ?_ ?_
            · exact (AssocMap.lookup_erase_eq _ _ _).trans (if_pos rfl)
            · intro s hs
              exact (AssocMap.lookup_erase_eq _ _ _).trans (if_neg hs)
          obtain ⟨taken', left', heq, hspl⟩ := ih hnext
          exact ⟨taken', left', by rw [heq, List.append_assoc]; rfl, hspl⟩

/-- What was buffered fits twice into the room the stream needs. -/
theorem Assembling.fits (h : Assembling old a b taken left got c) (hx : x ∈ left)
    (hroom : old.length + 2 * (b - a) ≤ c.recvBufferCap) :
    c.bufferedBytes + x.2.length ≤ c.recvBufferCap := by
  have hweight : c.oooBuffer.weight List.length ≤ (left.map fun x ↦ x.2.length).sum :=
    AssocMap.weight_le_of_forall_mem List.length h.held
  have hfront : a + (taken.map fun x ↦ x.2.length).sum = c.rcvNxt.toNat := h.front.add_sum
  have hback : c.rcvNxt.toNat + (left.map fun x ↦ x.2.length).sum = b := h.back.add_sum
  have hbound := h.back.bounds hx
  have hbuf : c.recvBuffer.length = old.length + (taken.map fun x ↦ x.2.length).sum := by
    rw [h.buffer, List.length_append, List.length_flatMap]
  unfold bufferedBytes
  omega

/-- One segment of the cut arrives, for the first time or again. -/
theorem Assembling.receive (hb : b < 2 ^ 32) (h : Assembling old a b taken left got c)
    (hnone : c.oooBuffer.lookup c.rcvNxt = none) (hx : x ∈ taken ++ left)
    (hseq : seg.seqNum = x.1) (hfin : ¬ hasFlag seg.flags tcpFin)
    (hroom : old.length + 2 * (b - a) ≤ c.recvBufferCap) :
    ∃ taken' left', taken' ++ left' = taken ++ left ∧
      Assembling old a b taken' left' (x :: got) (c.receiveDataAndMaybeFin seg x.2).conn ∧
      (c.receiveDataAndMaybeFin seg x.2).conn.oooBuffer.lookup
        (c.receiveDataAndMaybeFin seg x.2).conn.rcvNxt = none := by
  obtain ⟨s, d⟩ := x
  dsimp only at hseq ⊢
  rcases List.mem_append.mp hx with hx | hx
  · -- taken already: the number lies before `rcv_nxt`
    have hbound := h.front.bounds hx
    dsimp only at hbound
    have hlt : seg.seqNum.toNat < c.rcvNxt.toNat := by
      rw [hseq]
      omega
    have hne : seg.seqNum ≠ c.rcvNxt := by
      intro heq
      rw [heq] at hlt
      omega
    have hgt : ¬ seg.seqNum > c.rcvNxt := by
      rw [gt_iff_lt, UInt32.lt_iff_toNat_lt]
      omega
    rw [(receive_of_lt d hne hgt).1]
    refine ⟨taken, left, rfl, ⟨h.front, h.back, h.buffer, h.held, ?_⟩, hnone⟩
    intro y hy
    rcases List.mem_cons.mp hy with rfl | hy
    · exact .inl hx
    · exact h.arrived y hy
  · by_cases heq : s = c.rcvNxt
    · -- the one that was missing: deliver it and everything behind it
      subst heq
      obtain ⟨rest, rfl⟩ := h.back.eq_cons_of_pos hx rfl
      have hadv : Assembling old a b (taken ++ [(c.rcvNxt, d)]) rest got (c.appendInOrder d) :=
        h.advance hb rfl rfl hnone fun _ _ ↦ rfl
      have hadv' : Assembling old a b (taken ++ [(c.rcvNxt, d)]) rest ((c.rcvNxt, d) :: got)
          (c.appendInOrder d) := by
        refine ⟨hadv.front, hadv.back, hadv.buffer, hadv.held, fun y hy ↦ ?_⟩
        rcases List.mem_cons.mp hy with rfl | hy
        · exact .inl (List.mem_append_right _ (List.mem_singleton.mpr rfl))
        · exact hadv.arrived y hy
      obtain ⟨taken', left', hsplit, hspl⟩ := hadv'.splice hb c.oooBuffer.entries.length
      have hend := lookup_splice c.oooBuffer.entries.length (c.appendInOrder d) le_rfl
      rw [(receive_of_eq d hseq).1, if_neg hfin]
      exact ⟨taken', left', by rw [hsplit, List.append_assoc]; rfl, hspl, hend⟩
    · -- a later one: it is buffered, there is room for it
      have hbound := h.back.bounds hx
      dsimp only at hbound
      have hgt : seg.seqNum > c.rcvNxt := by
        rw [gt_iff_lt, UInt32.lt_iff_toNat_lt, hseq]
        have hne : s.toNat ≠ c.rcvNxt.toNat := fun h ↦ heq (UInt32.toNat_inj.mp h)
        omega
      have hfits := h.fits hx hroom
      have hkeep :
          (!d.isEmpty && decide (c.bufferedBytes + d.length ≤ c.recvBufferCap)) = true := by
        have hd : d.isEmpty = false := by
          cases d with
          | nil => simp at hbound
          | cons _ _ => rfl
        simpa [hd] using hfits
      rw [(receive_of_gt d (by rwa [hseq]) hgt).1, if_pos hkeep, hseq]
      have hlook (s' : UInt32) : (AList.insert s d c.oooBuffer).lookup s' =
          if s' = s then some d else c.oooBuffer.lookup s' :=
        AssocMap.lookup_insert_eq _ _ _ _
      refine ⟨taken, left, rfl, ⟨h.front, h.back, h.buffer, ?_, ?_⟩, ?_⟩
      · intro s' d' hs'
        rw [hlook] at hs'
        split_ifs at hs' with hsame
        · obtain rfl := Option.some.inj hs'
          rw [hsame]
          exact hx
        · exact h.held s' d' hs'
      · intro y hy
        rcases List.mem_cons.mp hy with rfl | hy
        · exact .inr ((hlook s).trans (if_pos rfl))
        · rcases h.arrived y hy with hy | hy
          · exact .inl hy
          · refine .inr ?_
            rw [hlook]
            split_ifs with hsame
            · -- the same number, hence the same segment
              have hmem := h.held y.1 y.2 hy
              have hsegs := h.back.eq_of_pos hmem hx (congrArg UInt32.toNat hsame)
              exact congrArg some (Prod.mk.inj hsegs).2.symm
            · exact hy
      · rw [hlook, if_neg (Ne.symm heq)]
        exact hnone

theorem Assembling.of_inbound (h : Assembling old a b taken left got c)
    (heq : c'.inbound = c.inbound) : Assembling old a b taken left got c' := by
  obtain ⟨-, hnxt, hooo, hbuf, -⟩ := inbound_eq_iff.mp heq
  constructor
  · rw [hnxt]
    exact h.front
  · rw [hnxt]
    exact h.back
  · rw [hbuf]
    exact h.buffer
  · rw [hooo]
    exact h.held
  · rw [hooo]
    exact h.arrived

/-- Some part of the cut is taken, and what has arrived of the rest is buffered. -/
structure Reassembles (old : Bytes) (a b : ℕ) (cut got : List Numbered) (c : TcpConnection) :
    Prop where
  state : c.state.receives
  split : ∃ taken left, taken ++ left = cut ∧ Assembling old a b taken left got c
  gap : c.oooBuffer.lookup c.rcvNxt = none
  room : old.length + 2 * (b - a) ≤ c.recvBufferCap

variable {cut : List Numbered}

theorem Reassembles.segment (now : Instant) (hb : b < 2 ^ 32) (h : Reassembles old a b cut got c)
    (hx : x ∈ cut) (hseq : seg.seqNum = x.1) (hrst : ¬ hasFlag seg.flags tcpRst)
    (hfin : ¬ hasFlag seg.flags tcpFin) :
    Reassembles old a b cut (x :: got) (c.processSegment now seg x.2).conn ∧
      (c.processSegment now seg x.2).conn.state ≠ .closed := by
  obtain ⟨taken, left, rfl, hasm⟩ := h.split
  obtain ⟨hin, -, hstate, hopen⟩ := processSegment_inbound now x.2 h.state hrst
  obtain ⟨taken', left', hsplit, hnext, hgap⟩ := hasm.receive hb h.gap hx hseq hfin h.room
  have hnofin := receive_fin_of_not (c := c) x.2 hfin
  obtain ⟨-, hnxt, hooo, -, hcap⟩ := inbound_eq_iff.mp hin
  obtain ⟨nxt, buf, ooo, hrec⟩ := receive_eq c seg x.2
  refine ⟨⟨?_, ⟨taken', left', hsplit, hnext.of_inbound hin⟩, ?_, ?_⟩, hopen⟩
  · rw [hstate, hnofin]
    rfl
  · rw [hnxt, hooo]
    exact hgap
  · rw [hcap, hrec]
    exact h.room

/-- Once everything has arrived, everything is delivered. -/
theorem Reassembles.complete (h : Reassembles old a b cut got c) (hall : ∀ x ∈ cut, x ∈ got) :
    c.recvBuffer = old ++ cut.flatMap Prod.snd ∧ c.rcvNxt.toNat = b ∧ c.oooBuffer = ∅ := by
  obtain ⟨taken, left, rfl, hasm⟩ := h.split
  cases left with
  | cons y left =>
      -- the first segment that is left has arrived, so it stands at `rcv_nxt`
      obtain ⟨hpos, -, -⟩ := hasm.back
      change y.1.toNat = c.rcvNxt.toNat at hpos
      rcases hasm.arrived y (hall y (List.mem_append_right _ List.mem_cons_self)) with hy | hy
      · have hbound := hasm.front.bounds hy
        omega
      · rw [UInt32.toNat_inj.mp hpos, h.gap] at hy
        cases hy
  | nil =>
      refine ⟨?_, hasm.back, AssocMap.eq_empty_of_lookup fun s ↦ ?_⟩
      · rw [hasm.buffer, List.append_nil]
      · cases hlook : c.oooBuffer.lookup s with
        | none => rfl
        | some d => cases hasm.held s d hlook

end TcpConnection

/-! ## Delivery to a table -/

/-- The call hands the connection under `k` the segment `x`, without a RST or a FIN. -/
def TableEvent.Delivers (k : ConnectionKey) (x : Numbered) (e : TableEvent) : Prop :=
  ∃ now seg, e.on k = some (.segment now seg x.2) ∧ seg.seqNum = x.1 ∧
    ¬ hasFlag seg.flags tcpRst ∧ ¬ hasFlag seg.flags tcpFin

namespace TcpTable

variable {t : TcpTable} {k : ConnectionKey} {c : TcpConnection} {cut : List Numbered} {S : Bytes}

theorem opened_of_lookup {e : TableEvent} {ce : ConnEvent} (hc : t.lookup k = some c)
    (hon : e.on k = some ce) : e.opened t k = none := by
  cases e with
  | segment now iss ipHdr payload =>
      simp only [TableEvent.opened]
      split
      · rw [if_neg]
        rintro ⟨-, hnone, -⟩
        rw [hc] at hnone
        cases hnone
      · rfl
  | connect now iss localAddr remoteAddr remotePort => cases hon
  | _ => rfl

theorem reassembles_foldl {old : Bytes} {a b : ℕ} {got : List Numbered} (hb : b < 2 ^ 32)
    (es : List TableEvent) (hes : ∀ e ∈ es, ∃ x ∈ cut, e.Delivers k x) (hc : t.lookup k = some c)
    (h : c.Reassembles old a b cut got) :
    ∃ c' got', (es.foldl (fun t e ↦ (t.step e).1) t).lookup k = some c' ∧
      c'.Reassembles old a b cut got' ∧ got ⊆ got' ∧
      ∀ x, (∃ e ∈ es, e.Delivers k x) → x ∈ got' := by
  induction es generalizing t c got with
  | nil => exact ⟨c, got, hc, h, List.Subset.refl _, fun x ⟨e, he, _⟩ ↦ by cases he⟩
  | cons e es ih =>
      rw [List.forall_mem_cons] at hes
      obtain ⟨⟨x, hx, now, seg, hon, hseq, hrst, hfin⟩, hrest⟩ := hes
      obtain ⟨hnext, hopen⟩ := h.segment now hb hx hseq hrst hfin
      have hlook : (t.step e).1.lookup k = some (c.processSegment now seg x.2).conn := by
        have hstep := lookup_step_of_open hc (opened_of_lookup hc hon)
        rw [hon] at hstep
        exact hstep hopen
      obtain ⟨c', got', hc', hdone, hsub, hcover⟩ := ih hrest hlook hnext
      refine ⟨c', got', hc', hdone, fun y hy ↦ hsub (List.mem_cons_of_mem _ hy), ?_⟩
      rintro y ⟨e', he', hy⟩
      rcases List.mem_cons.mp he' with rfl | he'
      · -- this delivery: the event fixes the segment
        obtain ⟨now', seg', hon', hseq', -⟩ := hy
        rw [hon] at hon'
        obtain ⟨-, hsame, hdata⟩ := ConnEvent.segment.inj (Option.some.inj hon')
        have hxy : x = y := Prod.ext (by rw [← hseq, ← hseq', hsame]) hdata
        exact hsub (hxy ▸ List.mem_cons_self)
      · exact hcover y ⟨e', he', hy⟩

/-- The segments of a stream, in any order and as often as they come, each of them at least
once, leave the stream in `recv_buffer` and nothing in `ooo_buffer`. -/
theorem reassembles (hc : t.lookup k = some c) (hst : c.state = .established)
    (hooo : c.oooBuffer = ∅)
    (hcut : Cut c.rcvNxt.toNat (c.rcvNxt.toNat + S.length) cut) (hS : cut.flatMap Prod.snd = S)
    (hwrap : c.rcvNxt.toNat + S.length < 2 ^ 32)
    (hroom : c.recvBuffer.length + 2 * S.length ≤ c.recvBufferCap) (es : List TableEvent)
    (hes : ∀ e ∈ es, ∃ x ∈ cut, e.Delivers k x) (hall : ∀ x ∈ cut, ∃ e ∈ es, e.Delivers k x) :
    ∃ c', (es.foldl (fun t e ↦ (t.step e).1) t).lookup k = some c' ∧
      c'.recvBuffer = c.recvBuffer ++ S ∧ c'.rcvNxt = shift c.rcvNxt S.length ∧
      c'.oooBuffer = ∅ := by
  have hstart : c.Reassembles c.recvBuffer c.rcvNxt.toNat (c.rcvNxt.toNat + S.length) cut [] := by
    refine ⟨by rw [hst]; rfl, ⟨[], cut, rfl, rfl, hcut, by simp, ?_, ?_⟩, ?_, ?_⟩
    · intro s d hs
      rw [hooo] at hs
      cases hs
    · intro x hx
      cases hx
    · rw [hooo]
      rfl
    · rw [Nat.add_sub_cancel_left]
      exact hroom
  obtain ⟨c', got, hc', hdone, -, hcover⟩ := reassembles_foldl hwrap es hes hc hstart
  obtain ⟨hbuf, hnxt, hempty⟩ := hdone.complete fun x hx ↦ hcover x (hall x hx)
  refine ⟨c', hc', hbuf.trans (by rw [hS]), UInt32.toNat_inj.mp ?_, hempty⟩
  rw [hnxt, toNat_shift hwrap]

/-- Three segments in the order C, A, C, B. -/
theorem reassembles_cacb :
    ∃ (t : TcpTable) (ev : Numbered → TableEvent) (c' : TcpConnection),
      (([(504, [4, 5]), (501, [1, 2]), (504, [4, 5]), (503, [3])].map ev).foldl
        (fun t e ↦ (t.step e).1) t).lookup ⟨1, 2, 3, 4⟩ = some c' ∧
        c'.recvBuffer = [9] ++ [1, 2, 3, 4, 5] ∧ c'.rcvNxt = shift 501 5 ∧ c'.oooBuffer = ∅ := by
  let k : ConnectionKey := ⟨1, 2, 3, 4⟩
  let c : TcpConnection :=
    { TcpConnection.new 0 with
      state := .established
      localAddr := 1
      localPort := 2
      remoteAddr := 3
      remotePort := 4
      rcvNxt := 501
      recvBuffer := [9] }
  let packet (x : Numbered) : Packet := ⟨3, 1, ⟨4, 2, x.1, 0, 80, tcpAck, 1000, 0, 0⟩, x.2⟩
  let ev (x : Numbered) : TableEvent := .segment 0 0 (packet x).ipHeader (packet x).segment
  let cut : List Numbered := [(501, [1, 2]), (503, [3]), (504, [4, 5])]
  have hrst : ¬ hasFlag tcpAck tcpRst := by decide
  have hfin : ¬ hasFlag tcpAck tcpFin := by decide
  have hdel : ∀ x ∈ cut, (ev x).Delivers k x := by
    intro x hx
    have hacc : acceptedSegment (packet x).ipHeader (packet x).segment =
        some ({ (packet x).hdr with checksum := (packet x).checksum }, x.2) := by
      revert x
      decide +kernel
    refine ⟨0, { (packet x).hdr with checksum := (packet x).checksum }, ?_, rfl, hrst, hfin⟩
    simp only [ev, TableEvent.on, hacc]
    rfl
  refine ⟨TcpTable.new.setConnection k c, ev, ?_⟩
  refine reassembles (c := c) (S := [1, 2, 3, 4, 5]) (k := k) rfl rfl rfl
    (show Cut 501 506 cut from ⟨rfl, by decide, rfl, by decide, rfl, by decide, rfl⟩) rfl
    (by decide) (by decide) _ ?_ ?_
  · intro e he
    obtain ⟨x, hx, rfl⟩ := List.mem_map.mp he
    have hx' : x ∈ cut := by
      clear he
      revert x
      decide
    exact ⟨x, hx', hdel x hx'⟩
  · intro x hx
    refine ⟨ev x, List.mem_map_of_mem ?_, hdel x hx⟩
    revert x
    decide

end TcpTable

end MiniTcp
