import MiniTcp.Tcp.Flush
import MiniTcp.Tcp.Track

/-!
# `flush_send` sends what the window allows

The loop computes the bytes in flight again in every round.  Round by round the window
that is left and the bytes that are pending shrink by the same amount, so the rounds
together take the first bytes of `send_pending` up to the window, cut into full segments
and a rest.  A second call finds nothing to do.
-/

namespace MiniTcp

open Serial

/-- `bytes` as first transmissions from number `n` on, each of them the next `mss` bytes
or all that is left. -/
def Segmented : UInt32 → Bytes → List Emission → Prop
  | _, bytes, [] => bytes = []
  | n, bytes, m :: out =>
      bytes ≠ [] ∧ m.origin = .queued ∧ m.flags = tcpAck ||| tcpPsh ∧ m.seq = n ∧
        m.data = bytes.take mss ∧ Segmented (shift n m.data.length) (bytes.drop mss) out

namespace Segmented

variable {n : UInt32} {bytes : Bytes} {out : List Emission}

theorem flatMap_data (h : Segmented n bytes out) : out.flatMap Emission.data = bytes := by
  induction out generalizing n bytes with
  | nil => exact (Eq.symm h)
  | cons m out ih =>
      obtain ⟨-, -, -, -, hdata, hrest⟩ := h
      rw [List.flatMap_cons, ih hrest, hdata, List.take_append_drop]

theorem eq_nil_iff (h : Segmented n bytes out) : out = [] ↔ bytes = [] := by
  cases out with
  | nil => exact iff_of_true rfl h
  | cons m out => exact iff_of_false (List.cons_ne_nil _ _) h.1

theorem data_bounds (h : Segmented n bytes out) :
    ∀ m ∈ out, m.data ≠ [] ∧ m.data.length ≤ mss := by
  induction out generalizing n bytes with
  | nil =>
      intro m hm
      cases hm
  | cons m₀ out ih =>
      obtain ⟨hne, -, -, -, hdata, hrest⟩ := h
      intro m hm
      rcases List.mem_cons.mp hm with rfl | hm
      · rw [hdata]
        refine ⟨fun hnil ↦ ?_, List.length_take_le _ _⟩
        rcases List.take_eq_nil_iff.mp hnil with hmss | hbytes
        · cases hmss
        · exact hne hbytes
      · exact ih hrest m hm

theorem length_data (h : Segmented n bytes out) : ∀ m ∈ out.dropLast, m.data.length = mss := by
  induction out generalizing n bytes with
  | nil =>
      intro m hm
      cases hm
  | cons m₀ out ih =>
      obtain ⟨-, -, -, -, hdata, hrest⟩ := h
      cases out with
      | nil =>
          intro m hm
          cases hm
      | cons m₁ out =>
          intro m hm
          rw [List.dropLast_cons_of_ne_nil (List.cons_ne_nil m₁ out)] at hm
          rcases List.mem_cons.mp hm with rfl | hm
          · have hmore : bytes.drop mss ≠ [] := hrest.1
            have hlen : mss < bytes.length := by
              by_contra hle
              exact hmore (List.drop_eq_nil_iff.mpr (not_lt.mp hle))
            rw [hdata, List.length_take]
            omega
          · exact ih hrest m hm

theorem no_fin (h : Segmented n bytes out) : ∀ m ∈ out, hasFlag m.flags tcpFin = false := by
  induction out generalizing n bytes with
  | nil =>
      intro m hm
      cases hm
  | cons m₀ out ih =>
      obtain ⟨-, -, hflags, -, -, hrest⟩ := h
      intro m hm
      rcases List.mem_cons.mp hm with rfl | hm
      · rw [hflags]
        decide
      · exact ih hrest m hm

end Segmented

/-- The segments carry consecutive numbers from `n` on. -/
def Consecutive : UInt32 → List Emission → Prop
  | _, [] => True
  | n, m :: out => m.seq = n ∧ Consecutive (shift n m.data.length) out

theorem Segmented.consecutive {n : UInt32} {bytes : Bytes} {out : List Emission}
    (h : Segmented n bytes out) : Consecutive n out := by
  induction out generalizing n bytes with
  | nil => trivial
  | cons m out ih => exact ⟨h.2.2.2.1, ih h.2.2.2.2.2⟩

namespace TcpConnection

variable {c : TcpConnection} {now : Instant}

/-- The bytes that `send_pending` holds and the window still allows. -/
def allowance (c : TcpConnection) : ℕ :=
  min c.sendPending.length (c.sndWnd.toNat - (c.sndNxt - c.sndUna).toNat)

/-! ## The loop -/

theorem chunkLen_eq (c : TcpConnection) : c.chunkLen = min mss c.allowance := by
  unfold chunkLen allowance bytesInFlight
  dsimp only
  split_ifs with hnil hwnd
  · rw [List.isEmpty_iff.mp hnil]
    simp
  · rw [ge_iff_le, UInt32.le_iff_toNat_le] at hwnd
    omega
  · rw [ge_iff_le, UInt32.not_le] at hwnd
    rw [UInt32.toNat_sub_of_le _ _ (UInt32.le_of_lt hwnd)]
    omega

theorem allowance_sendChunk (now : Instant) (c : TcpConnection) :
    (c.sendChunk now c.chunkLen).1.allowance = c.allowance - c.chunkLen := by
  have hchunk := c.chunkLen_eq
  have hle : c.chunkLen ≤ c.allowance := by omega
  have hlen : (c.sendPending.take c.chunkLen).length = c.chunkLen := by
    rw [List.length_take]
    unfold allowance at hle
    omega
  have hnxt : (c.sendChunk now c.chunkLen).1.sndNxt = shift c.sndNxt c.chunkLen := by
    change c.sndNxt + consumed (tcpAck ||| tcpPsh) (c.sendPending.take c.chunkLen).length = _
    rw [consumed_eq, hlen]
    rfl
  unfold allowance
  rw [length_sendChunk, hnxt]
  change min (c.sendPending.length - c.chunkLen)
    (c.sndWnd.toNat - (shift c.sndNxt c.chunkLen - c.sndUna).toNat) = _
  by_cases hzero : c.chunkLen = 0
  · rw [hzero, shift_zero]
    rfl
  · -- the chunk ends within the window, so the count of bytes in flight does not wrap
    have hflight : (shift c.sndNxt c.chunkLen - c.sndUna).toNat =
        (c.sndNxt - c.sndUna).toNat + c.chunkLen := by
      have hw := c.sndWnd.toNat_lt
      have hn := c.sndNxt.toNat_lt
      have hu := c.sndUna.toNat_lt
      unfold allowance at hle
      rw [UInt32.toNat_sub, UInt32.toNat_sub, toNat_shift_mod] at *
      omega
    rw [hflight]
    omega

/-- What the window loop does, given enough fuel. -/
theorem flushLoop_segmented (now : Instant) (fuel : ℕ) (c : TcpConnection)
    (hfuel : c.sendPending.length ≤ fuel) :
    Segmented c.sndNxt (c.sendPending.take c.allowance) (flushLoop now fuel c).2 ∧
      (flushLoop now fuel c).1.sendPending = c.sendPending.drop c.allowance ∧
      (flushLoop now fuel c).1.sndNxt = shift c.sndNxt c.allowance := by
  have hchunk := c.chunkLen_eq
  have hall : c.allowance ≤ c.sendPending.length := Nat.min_le_left _ _
  induction fuel generalizing c with
  | zero =>
      have hnil : c.sendPending = [] := List.length_eq_zero_iff.mp (by omega)
      have hzero : c.allowance = 0 := by
        rw [hnil] at hall
        exact Nat.le_zero.mp hall
      rw [hzero, flushLoop, shift_zero]
      exact ⟨rfl, rfl, rfl⟩
  | succ fuel ih =>
      have hmss : mss = 1400 := rfl
      rw [flushLoop]
      by_cases hstop : c.chunkLen = 0
      · have hzero : c.allowance = 0 := by omega
        rw [if_pos hstop, hzero, shift_zero]
        exact ⟨rfl, rfl, rfl⟩
      · rw [if_neg hstop]
        have hless := allowance_sendChunk now c
        have hpending : (c.sendChunk now c.chunkLen).1.sendPending =
            c.sendPending.drop c.chunkLen := rfl
        have hlen : (c.sendPending.take c.chunkLen).length = c.chunkLen := by
          rw [List.length_take]
          omega
        have hnxt : (c.sendChunk now c.chunkLen).1.sndNxt = shift c.sndNxt c.chunkLen := by
          change c.sndNxt + consumed (tcpAck ||| tcpPsh) (c.sendPending.take c.chunkLen).length = _
          rw [consumed_eq, hlen]
          rfl
        have hfirst : c.sendPending.take c.chunkLen =
            (c.sendPending.take c.allowance).take mss := by
          rw [List.take_take, hchunk]
        have hrest : (c.sendPending.drop c.chunkLen).take (c.allowance - c.chunkLen) =
            (c.sendPending.take c.allowance).drop mss := by
          by_cases hfull : mss ≤ c.allowance
          · rw [List.drop_take]
            congr 2 <;> omega
          · have hend : c.allowance - c.chunkLen = 0 := by omega
            rw [hend, List.take_zero, eq_comm, List.drop_eq_nil_iff, List.length_take]
            omega
        obtain ⟨hseg, hdrop, hend⟩ := ih (c.sendChunk now c.chunkLen).1
          (by rw [length_sendChunk]; omega) (chunkLen_eq _) (Nat.min_le_left _ _)
        rw [hless, hnxt, hpending] at hseg
        rw [hless, hpending] at hdrop
        rw [hless, hnxt] at hend
        refine ⟨⟨?_, rfl, rfl, rfl, hfirst, ?_⟩, ?_, ?_⟩
        · intro hnil
          rcases List.take_eq_nil_iff.mp hnil with hzero | hempty
          · omega
          · rw [hempty] at hall
            simp only [List.length_nil] at hall
            omega
        · have hnext : Segmented (shift c.sndNxt (c.sendPending.take c.chunkLen).length)
              ((c.sendPending.take c.allowance).drop mss)
              (flushLoop now fuel (c.sendChunk now c.chunkLen).1).2 := by
            rw [hlen, ← hrest]
            exact hseg
          exact hnext
        · refine hdrop.trans ?_
          rw [List.drop_drop]
          congr 1
          omega
        · refine hend.trans ?_
          rw [shift_shift]
          congr 1
          omega

theorem flushLoop_of_chunkLen (now : Instant) (fuel : ℕ) (h : c.chunkLen = 0) :
    flushLoop now fuel c = (c, []) := by
  cases fuel with
  | zero => rfl
  | succ fuel => rw [flushLoop, if_pos h]

/-- The loop ends by its own test, so more fuel changes nothing. -/
theorem flushLoop_fuel (now : Instant) {n m : ℕ} (c : TcpConnection)
    (hn : c.sendPending.length ≤ n) (hm : c.sendPending.length ≤ m) :
    flushLoop now n c = flushLoop now m c := by
  induction n generalizing m c with
  | zero =>
      have hnil : c.sendPending = [] := List.length_eq_zero_iff.mp (by omega)
      exact (flushLoop_of_chunkLen now m (chunkLen_eq_zero_iff.mpr (.inl hnil))).symm
  | succ n ih =>
      by_cases hstop : c.chunkLen = 0
      · rw [flushLoop_of_chunkLen now _ hstop, flushLoop_of_chunkLen now _ hstop]
      · cases m with
        | zero =>
            have hnil : c.sendPending = [] := List.length_eq_zero_iff.mp (by omega)
            exact absurd (chunkLen_eq_zero_iff.mpr (.inl hnil)) hstop
        | succ m =>
            have hlen := length_sendChunk now c.chunkLen c
            have hrest : flushLoop now n (c.sendChunk now c.chunkLen).1 =
                flushLoop now m (c.sendChunk now c.chunkLen).1 :=
              ih _ (by omega) (by omega)
            rw [flushLoop, flushLoop, if_neg hstop, if_neg hstop]
            dsimp only
            rw [hrest]

/-! ## The whole call -/

/-- The control block `c₂` when the loop of a flush has ended, and the segments it sent. -/
structure Looped (c c₂ : TcpConnection) (data : List Emission) : Prop where
  eq : ∃ queue deadline, c₂ =
    { c with
      retransmitQueue := queue
      sndNxt := shift c.sndNxt c.allowance
      sendPending := c.sendPending.drop c.allowance
      probeDeadline := deadline }
  sent : Segmented c.sndNxt (c.sendPending.take c.allowance) data
  done : c₂.chunkLen = 0
  armed : c.sndWnd = 0 → c.sendPending ≠ [] → c₂.probeDeadline.isSome
  kept : c.sndWnd ≠ 0 → c₂.probeDeadline = c.probeDeadline

theorem flushLoop_looped (now : Instant) (c : TcpConnection) :
    Looped c (flushLoop now c.sendPending.length (c.armProbe now)).1
      (flushLoop now c.sendPending.length (c.armProbe now)).2 := by
  obtain ⟨deadline, harm, hprobe⟩ := armProbe_eq now c
  obtain ⟨hseg, hleft, hnxt⟩ :=
    flushLoop_segmented now c.sendPending.length (c.armProbe now) (by rw [harm])
  obtain ⟨queue, nxt, pending, hloop⟩ := flushLoop_eq now c.sendPending.length (c.armProbe now)
  have hdone := chunkLen_flushLoop now c.sendPending.length (c.armProbe now) (by rw [harm])
  have hkept : c.sndWnd ≠ 0 → deadline = c.probeDeadline := by
    intro hwnd
    have hsame : c.armProbe now = c := by
      unfold armProbe
      rw [if_neg fun h ↦ hwnd h.1]
    exact (congrArg TcpConnection.probeDeadline (hsame.symm.trans harm)).symm
  generalize flushLoop now c.sendPending.length (c.armProbe now) = r at *
  obtain ⟨c₂, data⟩ := r
  rw [harm] at hseg hleft hnxt hloop
  dsimp only at hseg hleft hnxt hloop hdone ⊢
  constructor
  · refine ⟨queue, deadline, ?_⟩
    rw [hloop] at hleft hnxt ⊢
    change nxt = shift c.sndNxt c.allowance at hnxt
    change pending = c.sendPending.drop c.allowance at hleft
    rw [hnxt, hleft]
  · exact hseg
  · exact hdone
  · rw [hloop]
    exact hprobe
  · rw [hloop]
    exact hkept

theorem Looped.sendPending_eq_nil {c₂ : TcpConnection} {data : List Emission}
    (h : Looped c c₂ data) : c₂.sendPending = [] ↔ c.allowance = c.sendPending.length := by
  obtain ⟨queue, deadline, heq⟩ := h.eq
  have hall : c.allowance ≤ c.sendPending.length := Nat.min_le_left _ _
  rw [heq, List.drop_eq_nil_iff]
  omega

theorem sendDeferredFin_of_sends (now : Instant)
    (hst : c.state = .established ∨ c.state = .closeWait)
    (hfin : c.pendingClose ∧ c.sendPending = []) :
    c.sendDeferredFin now =
      ({ (c.queueAndSend now (tcpFin ||| tcpAck) []).1 with
          state := if c.state = .established then .finWait1 else .lastAck
          pendingClose := false },
        [⟨.queued, c.sendSegment (tcpFin ||| tcpAck) c.sndNxt []⟩]) := by
  unfold sendDeferredFin
  rw [if_pos hfin]
  rcases hst with hs | hs <;> rw [hs] <;> rfl

/-- A flush is its loop, then the FIN if the close was waiting for the last byte. -/
theorem flushSend_cases (now : Instant) (hst : c.state = .established ∨ c.state = .closeWait) :
    ∃ c₂ data, Looped c c₂ data ∧
      (c.pendingClose ∧ c.allowance = c.sendPending.length ∧
          c.flushSend now =
            ({ (c₂.queueAndSend now (tcpFin ||| tcpAck) []).1 with
                state := if c.state = .established then .finWait1 else .lastAck
                pendingClose := false },
              data ++ [⟨.queued, c₂.sendSegment (tcpFin ||| tcpAck) c₂.sndNxt []⟩]) ∨
        ¬ (c.pendingClose ∧ c.allowance = c.sendPending.length) ∧
          c.flushSend now = (c₂, data)) := by
  have hloop := flushLoop_looped now c
  have hflush := flushSend_of_sends now (sends_iff.mpr hst)
  generalize flushLoop now c.sendPending.length (c.armProbe now) = r at hloop hflush
  obtain ⟨c₂, data⟩ := r
  obtain ⟨queue, deadline, heq⟩ := hloop.eq
  dsimp only at hloop hflush heq
  have hstate : c₂.state = c.state := by rw [heq]
  have hfin : c₂.pendingClose ∧ c₂.sendPending = [] ↔
      c.pendingClose ∧ c.allowance = c.sendPending.length := by
    rw [hloop.sendPending_eq_nil, heq]
  refine ⟨c₂, data, hloop, ?_⟩
  by_cases hlast : c.pendingClose ∧ c.allowance = c.sendPending.length
  · rw [sendDeferredFin_of_sends now (by rwa [hstate]) (hfin.mpr hlast), hstate] at hflush
    exact .inl ⟨hlast.1, hlast.2, hflush⟩
  · have hdefer : c₂.sendDeferredFin now = (c₂, []) := by
      unfold sendDeferredFin
      rw [if_neg fun h ↦ hlast (hfin.mp h)]
    rw [hdefer, List.append_nil] at hflush
    exact .inr ⟨hlast, hflush⟩

/-- A flush sends something exactly when bytes wait for a window that is not used up, as
long as a close is deferred only behind such bytes. -/
theorem flushSend_ne_nil_iff (now : Instant) (hdefer : c.pendingClose → c.sendPending ≠ []) :
    (c.flushSend now).2 ≠ [] ↔
      c.state.sends ∧ c.sendPending ≠ [] ∧ c.bytesInFlight < c.sndWnd := by
  have hchunk : c.chunkLen ≠ 0 ↔ c.sendPending ≠ [] ∧ c.bytesInFlight < c.sndWnd := by
    rw [Ne, chunkLen_eq_zero_iff, not_or, UInt32.not_le]
  rw [← hchunk, chunkLen_eq]
  have hmss : mss = 1400 := rfl
  cases hst : c.state.sends with
  | false =>
      rw [flushSend_of_not_sends now hst]
      simp
  | true =>
      obtain ⟨c₂, data, hloop, ⟨hclose, hlast, hflush⟩ | ⟨-, hflush⟩⟩ :=
        flushSend_cases now (sends_iff.mp hst)
      · have hpos := List.length_pos_of_ne_nil (hdefer hclose)
        rw [hflush]
        refine iff_of_true (by simp) ⟨rfl, by omega⟩
      · rw [hflush]
        have hdata : data = [] ↔ c.allowance = 0 := by
          rw [hloop.sent.eq_nil_iff, List.take_eq_nil_iff]
          refine or_iff_left_of_imp fun hnil ↦ Nat.le_zero.mp ?_
          rw [← List.length_eq_zero_iff.mpr hnil]
          exact Nat.min_le_left _ _
        rw [Ne, hdata]
        constructor
        · exact fun hne ↦ ⟨rfl, by omega⟩
        · rintro ⟨-, hne⟩
          omega

/-- A connection that has used its window, runs its timer and has no FIN to send is left
alone. -/
theorem flushSend_of_done (now : Instant) (hchunk : c.chunkLen = 0)
    (hprobe : c.sndWnd = 0 → c.sendPending ≠ [] → c.probeDeadline.isSome)
    (hfin : ¬ (c.pendingClose ∧ c.sendPending = [])) : c.flushSend now = (c, []) := by
  have harm : c.armProbe now = c := by
    unfold armProbe
    split_ifs with hclosed
    · obtain ⟨deadline, hdeadline⟩ := Option.isSome_iff_exists.mp (hprobe hclosed.1 hclosed.2)
      rw [hdeadline, Option.getD_some, ← hdeadline]
    · rfl
  have hdefer : c.sendDeferredFin now = (c, []) := by
    unfold sendDeferredFin
    rw [if_neg hfin]
  cases hst : c.state.sends with
  | false => exact flushSend_of_not_sends now hst
  | true =>
      rw [flushSend_of_sends now hst, harm, flushLoop_of_chunkLen now _ hchunk]
      dsimp only
      rw [hdefer]
      rfl

/-- A second flush finds nothing to do. -/
theorem flushSend_again (now now' : Instant) (c : TcpConnection) :
    (c.flushSend now).1.flushSend now' = ((c.flushSend now).1, []) := by
  cases hst : c.state.sends with
  | false =>
      rw [flushSend_of_not_sends now hst]
      exact flushSend_of_not_sends now' hst
  | true =>
      obtain ⟨c₂, data, hloop, ⟨-, -, hflush⟩ | ⟨hnot, hflush⟩⟩ :=
        flushSend_cases now (sends_iff.mp hst)
      · apply flushSend_of_not_sends
        rw [hflush]
        dsimp only
        split_ifs <;> rfl
      · obtain ⟨queue, deadline, heq⟩ := hloop.eq
        rw [hflush]
        refine flushSend_of_done now' hloop.done ?_ ?_
        · intro hwnd hne
          refine hloop.armed (by rwa [heq] at hwnd) fun hnil ↦ hne ?_
          rw [heq, hnil, List.drop_nil]
        · rw [hloop.sendPending_eq_nil, heq]
          exact hnot

/-- What one call of `flush_send` does to a connection that may send. -/
structure Drained (now : Instant) (c : TcpConnection) : Prop where
  /-- the loop comes to its end within as many rounds as there are bytes pending -/
  ends : ∀ fuel, c.sendPending.length ≤ fuel →
    flushLoop now fuel (c.armProbe now) = flushLoop now c.sendPending.length (c.armProbe now)
  /-- the bytes the window allows, then the FIN if there is one -/
  sent : ∃ data fin, (c.flushSend now).2 = data ++ fin ∧
    (data.flatMap Emission.data = c.sendPending.take c.allowance ∧ Consecutive c.sndNxt data ∧
      (∀ m ∈ data.dropLast, m.data.length = mss) ∧
      (∀ m ∈ data, m.data ≠ [] ∧ m.data.length ≤ mss) ∧
      ∀ m ∈ data, hasFlag m.flags tcpFin = false) ∧
    (c.pendingClose ∧ c.allowance = c.sendPending.length ∧
        (c.flushSend now).1.state = (if c.state = .established then .finWait1 else .lastAck) ∧
        (∃ m, fin = [m] ∧ m.flags = tcpFin ||| tcpAck ∧ m.data = [] ∧
          m.seq = shift c.sndNxt c.allowance) ∨
      ¬ (c.pendingClose ∧ c.allowance = c.sendPending.length) ∧
        (c.flushSend now).1.state = c.state ∧ fin = [])
  left : (c.flushSend now).1.sendPending = c.sendPending.drop c.allowance
  armed : c.sndWnd = 0 → c.sendPending ≠ [] → (c.flushSend now).1.probeDeadline.isSome
  again : ∀ now', (c.flushSend now).1.flushSend now' = ((c.flushSend now).1, [])

/-- Every byte that the window allows, the FIN if nothing is left, and then nothing more. -/
theorem flushSend_drains (now : Instant) (hst : c.state = .established ∨ c.state = .closeWait) :
    Drained now c := by
  obtain ⟨deadline, harm, -⟩ := armProbe_eq now c
  have hfuel (fuel : ℕ) (h : c.sendPending.length ≤ fuel) :
      flushLoop now fuel (c.armProbe now) = flushLoop now c.sendPending.length (c.armProbe now) :=
    flushLoop_fuel now _ (by rw [harm]; exact h) (by rw [harm])
  obtain ⟨c₂, data, hloop, hcases⟩ := flushSend_cases now hst
  obtain ⟨queue, deadline, heq⟩ := hloop.eq
  have hseg := hloop.sent
  have hbytes : data.flatMap Emission.data = c.sendPending.take c.allowance ∧
      Consecutive c.sndNxt data ∧ (∀ m ∈ data.dropLast, m.data.length = mss) ∧
      (∀ m ∈ data, m.data ≠ [] ∧ m.data.length ≤ mss) ∧
      ∀ m ∈ data, hasFlag m.flags tcpFin = false :=
    ⟨hseg.flatMap_data, hseg.consecutive, hseg.length_data, hseg.data_bounds, hseg.no_fin⟩
  have hleft : c₂.sendPending = c.sendPending.drop c.allowance := by rw [heq]
  have hnxt : c₂.sndNxt = shift c.sndNxt c.allowance := by rw [heq]
  rcases hcases with ⟨hclose, hlast, hflush⟩ | ⟨hnot, hflush⟩
  · refine ⟨hfuel, ?_, ?_, ?_, fun now' ↦ flushSend_again now now' c⟩
    · refine ⟨data, [⟨.queued, c₂.sendSegment (tcpFin ||| tcpAck) c₂.sndNxt []⟩], ?_, hbytes,
        .inl ⟨hclose, hlast, ?_, _, rfl, rfl, rfl, hnxt⟩⟩ <;> rw [hflush]
    · rw [hflush]
      exact hleft
    · rw [hflush]
      exact hloop.armed
  · refine ⟨hfuel, ?_, ?_, ?_, fun now' ↦ flushSend_again now now' c⟩
    · refine ⟨data, [], by rw [hflush, List.append_nil], hbytes, .inr ⟨hnot, ?_, rfl⟩⟩
      rw [hflush, heq]
    · rw [hflush]
      exact hleft
    · rw [hflush]
      exact hloop.armed

theorem flushSend_drains_narrow_window :
    ∃ c : TcpConnection, c.state = .established ∧ c.pendingClose ∧ c.sndWnd = 3 ∧
      c.sendPending = [1, 2, 3, 4] ∧ ((c.flushSend 7).1.sendPending = [4] ∧
        (c.flushSend 7).1.state = .established) ∧ Drained 7 c := by
  let c : TcpConnection :=
    { TcpConnection.new 0 with
      state := .established
      pendingClose := true
      sndWnd := 3
      sendPending := [1, 2, 3, 4] }
  exact ⟨c, rfl, rfl, rfl, rfl, by decide +kernel, flushSend_drains 7 (.inl rfl)⟩

end TcpConnection

end MiniTcp
