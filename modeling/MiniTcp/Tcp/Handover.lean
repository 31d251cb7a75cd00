import MiniTcp.StackRun
import MiniTcp.Tcp.AcceptQueue

/-!
# How often a key is handed over

A connection that a SYN has opened is in SYN_RCVD, then its key waits in an accept queue,
and then `accept` has returned the key.  A key may wait although its connection is gone, it
may wait twice, and `accept` may return it twice while one connection is there; but each
time a SYN of its own had opened a connection under the key.
-/

namespace MiniTcp

/-- The call opens a connection under `k` because of a SYN. -/
def TableEvent.opensPassively (t : TcpTable) (k : ConnectionKey) (e : TableEvent) : Bool :=
  (e.opened t k).any fun tr ↦ tr.conn.state == .synRcvd

namespace TcpTable

/-- The handshake of the connection under `k` is not over. -/
def opening (t : TcpTable) (k : ConnectionKey) : Bool :=
  (t.lookup k).any fun c ↦ c.state == .synRcvd

/-- How many times `k` can still be returned. -/
def credit (t : TcpTable) (k : ConnectionKey) : ℕ := t.waiting.count k + (t.opening k).toNat

/-- The keys that the calls of `accept` return. -/
def acceptedAlong : TcpTable → List TableEvent → List ConnectionKey
  | _, [] => []
  | t, e :: es => (e.accepted t).toList ++ acceptedAlong (t.step e).1 es

/-- How many of the calls open a connection under `k` because of a SYN. -/
def handshakes (k : ConnectionKey) : TcpTable → List TableEvent → ℕ
  | _, [] => 0
  | t, e :: es => (e.opensPassively t k).toNat + handshakes k (t.step e).1 es

variable {t : TcpTable} {e : TableEvent} {k : ConnectionKey}

theorem opening_iff : t.opening k = true ↔ ∃ c, t.lookup k = some c ∧ c.state = .synRcvd := by
  simp [opening, Option.any_eq_true]

theorem opening_step (h : (t.step e).1.opening k = true) :
    e.opensPassively t k = true ∨ t.opening k = true := by
  obtain ⟨c, hc, hst⟩ := opening_iff.mp h
  rcases lookup_step hc with ⟨tr, hopen, rfl⟩ | ⟨-, c₀, hc₀, rfl⟩
  · left
    simp [TableEvent.opensPassively, hopen, hst]
  · right
    exact opening_iff.mpr ⟨c₀, hc₀, TcpConnection.synRcvd_of_after hst⟩

theorem toNat_opening_step (t : TcpTable) (e : TableEvent) (k : ConnectionKey) :
    ((t.step e).1.opening k).toNat ≤ (t.opening k).toNat + (e.opensPassively t k).toNat := by
  cases hopen : (t.step e).1.opening k with
  | false => exact Nat.zero_le _
  | true =>
      rcases opening_step hopen with h | h
      · rw [h]
        exact Nat.le_add_left _ _
      · rw [h]
        exact Nat.le_add_right _ _

/-- A call that returns `k` uses up one of its credits, and only a SYN adds one. -/
theorem credit_step (t : TcpTable) (e : TableEvent) (k : ConnectionKey) :
    (t.step e).1.credit k + (e.accepted t).toList.count k ≤
      t.credit k + (e.opensPassively t k).toNat := by
  have hopening := toNat_opening_step t e k
  unfold credit
  rcases t.waiting_step e with ⟨k₀, c, hc, hst, hsync, hopened, hno, hperm⟩ |
    ⟨k₀, hk₀, hperm⟩ | ⟨hno, hsame⟩
  · rw [hno, hperm.count_eq]
    by_cases hk : k₀ = k
    · subst hk
      -- the handshake is over: SYN_RCVD becomes a place in the queue
      have hbefore : t.opening k₀ = true := opening_iff.mpr ⟨c, hc, hst⟩
      have hafter : (t.step e).1.opening k₀ = false := by
        rw [← Bool.not_eq_true, opening_iff]
        rintro ⟨c', hc', hst'⟩
        rcases lookup_step hc' with ⟨tr, hopen, -⟩ | ⟨-, c₀, hc₀, rfl⟩
        · rw [hopened] at hopen
          cases hopen
        · obtain rfl : c = c₀ := Option.some.inj (hc.symm.trans hc₀)
          rw [hst'] at hsync
          cases hsync
      rw [hbefore, hafter, List.count_cons_self]
      simp
    · rw [List.count_cons_of_ne hk]
      simp only [Option.toList_none, List.count_nil]
      omega
  · rw [hk₀, hperm.count_eq]
    by_cases hk : k₀ = k
    · subst hk
      simp only [Option.toList_some, List.count_cons_self, List.count_nil]
      omega
    · simp only [Option.toList_some, List.count_cons_of_ne hk, List.count_nil]
      omega
  · rw [hno, hsame]
    simp only [Option.toList_none, List.count_nil]
    omega

theorem credit_run (t : TcpTable) (es : List TableEvent) (k : ConnectionKey) :
    (t.run es).credit k + (t.acceptedAlong es).count k ≤ t.credit k + t.handshakes k es := by
  induction es generalizing t with
  | nil => exact Nat.le_refl _
  | cons e es ih =>
      have hstep := credit_step t e k
      have hrest := ih (t.step e).1
      rw [acceptedAlong, handshakes, List.count_append]
      change ((t.step e).1.run es).credit k + _ ≤ _
      omega

/-- In every run of a table, the returns of a key by `accept`, its places in the queues and its
handshake under way are in all no more than the SYNs that opened a connection under it. -/
theorem accepts_le_handshakes (es : List TableEvent) (k : ConnectionKey) :
    (TcpTable.new.acceptedAlong es).count k + (TcpTable.new.run es).waiting.count k +
        ((TcpTable.new.run es).opening k).toNat ≤ TcpTable.new.handshakes k es := by
  have hrun := TcpTable.new.credit_run es k
  have hnew : TcpTable.new.credit k = 0 := rfl
  have hcredit : (TcpTable.new.run es).credit k =
      (TcpTable.new.run es).waiting.count k + ((TcpTable.new.run es).opening k).toNat := rfl
  omega

end TcpTable

end MiniTcp
