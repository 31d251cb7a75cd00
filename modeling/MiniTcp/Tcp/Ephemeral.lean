import MiniTcp.Tcp.Host

/-!
# Ephemeral ports

`connect` takes the next value of a 16-bit counter as its local port and registers the
connection without looking whether the 4-tuple is taken.  It is free as long as the
counter has not come round and the address is not a listening one, and otherwise a
connection can be overwritten.
-/

namespace MiniTcp

def TableEvent.connects : TableEvent → ℕ
  | .connect .. => 1
  | _ => 0

namespace TcpTable

variable {t : TcpTable} {e : TableEvent} {k : ConnectionKey}

theorem nextEphemeralPort_step (t : TcpTable) (e : TableEvent) :
    (t.step e).1.nextEphemeralPort = t.nextEphemeralPort + UInt16.ofNat e.connects := by
  have hsame {t' : TcpTable} (h : t'.config = t.config) :
      t'.nextEphemeralPort = t.nextEphemeralPort + UInt16.ofNat 0 :=
    (congrArg Prod.snd h).trans (UInt16.add_zero _).symm
  cases e with
  | segment => exact hsame (config_handleSegment ..)
  | listen addr port reuseAddr =>
      refine Eq.trans ?_ (UInt16.add_zero _).symm
      simp only [step, listen]
      split_ifs <;> rfl
  | accept => exact hsame (config_accept ..)
  | tick => exact hsame rfl
  | connect => rfl
  | send | recv | close | setRecvCap | setSendCap => exact hsame (config_withConnection ..)

theorem listeners_step (t : TcpTable) (e : TableEvent) :
    t.listeners ⊆ (t.step e).1.listeners := by
  cases e with
  | listen addr port reuseAddr =>
      simp only [step, listen]
      split_ifs
      · exact Finset.Subset.refl _
      · exact Finset.subset_insert _ _
  | _ => exact (listeners_step_of_not_listen (by simp)).symm.subset

theorem opened_port {tr : Track} (h : e.opened t k = some tr) :
    (k.localAddr, k.localPort) ∈ t.listeners ∨
      e.connects = 1 ∧ k.localPort = t.nextEphemeralPort := by
  cases TableEvent.opened_cases h with
  | segment hseg hkey hnone hsyn hack hlis =>
      subst hkey
      exact .inl hlis
  | connect hkey =>
      subst hkey
      exact .inr ⟨rfl, rfl⟩

theorem lookup_connect (t : TcpTable) (now : Instant) (iss localAddr remoteAddr : UInt32)
    (remotePort : UInt16) :
    (t.connect now iss localAddr remoteAddr remotePort).1.lookup
        (t.connect now iss localAddr remoteAddr remotePort).2.2 =
      some (TcpConnection.activeOpen now iss
        (t.connect now iss localAddr remoteAddr remotePort).2.2).1 :=
  (lookup_setConnection _ _ _ _).trans (if_pos rfl)

end TcpTable

/-- A table, and how often `connect` was called. -/
structure Dialer where
  table : TcpTable
  connects : ℕ

namespace Dialer

variable {s : Dialer} {e : TableEvent}

def new : Dialer where
  table := TcpTable.new
  connects := 0

def step (s : Dialer) (e : TableEvent) : Dialer where
  table := (s.table.step e).1
  connects := s.connects + e.connects

def Reachable : Dialer → Prop := Run.Reaches (· = new) (fun _ _ ↦ True) step

def ephemeralPort (n : ℕ) : UInt16 := 49152 + UInt16.ofNat n

theorem ephemeralPort_ne {i n : ℕ} (hi : i < n) (hn : n < 65536) :
    ephemeralPort i ≠ ephemeralPort n := by
  intro h
  have hnat := congrArg UInt16.toNat ((UInt16.add_right_inj 49152).mp h)
  rw [UInt16.toNat_ofNat', UInt16.toNat_ofNat'] at hnat
  omega

/-- Every connection was opened on a listening address or by an earlier `connect`. -/
structure Numbered (s : Dialer) : Prop where
  next : s.table.nextEphemeralPort = ephemeralPort s.connects
  port : ∀ k c, s.table.lookup k = some c → (k.localAddr, k.localPort) ∈ s.table.listeners ∨
    ∃ i < s.connects, k.localPort = ephemeralPort i

theorem Numbered.step (h : s.Numbered) : (s.step e).Numbered := by
  constructor
  · rw [Dialer.step, TcpTable.nextEphemeralPort_step, h.next]
    simp only [ephemeralPort, UInt16.ofNat_add, UInt16.add_assoc]
  · intro k c hc
    have hlis := TcpTable.listeners_step s.table e
    have hold (hk : (k.localAddr, k.localPort) ∈ s.table.listeners ∨
        ∃ i < s.connects, k.localPort = ephemeralPort i) :
        (k.localAddr, k.localPort) ∈ (s.step e).table.listeners ∨
          ∃ i < (s.step e).connects, k.localPort = ephemeralPort i := by
      rcases hk with hk | ⟨i, hi, hk⟩
      · exact .inl (hlis hk)
      · exact .inr ⟨i, Nat.lt_of_lt_of_le hi (Nat.le_add_right _ _), hk⟩
    rcases TcpTable.lookup_step hc with ⟨tr, hopen, -⟩ | ⟨-, c₀, hc₀, -⟩
    · rcases TcpTable.opened_port hopen with hk | ⟨hone, hk⟩
      · exact .inl (hlis hk)
      · refine .inr ⟨s.connects, ?_, hk.trans h.next⟩
        rw [Dialer.step, hone]
        exact Nat.lt_succ_self _
    · exact hold (h.port k c₀ hc₀)

theorem Reachable.numbered (h : s.Reachable) : s.Numbered := by
  refine Run.Reaches.invariant ?_ ?_ h
  · rintro s rfl
    exact ⟨rfl, fun k c hc ↦ by cases hc⟩
  · intro s e _ _ hs
    exact hs.step

/-- Within the first 65536 calls, `connect` from an address that does not listen on the
next port takes a free 4-tuple and leaves every other connection alone. -/
theorem connect_fresh (h : s.Reachable) (hn : s.connects < 65536) (now : Instant)
    (iss localAddr remoteAddr : UInt32) (remotePort : UInt16)
    (hlis : (localAddr, s.table.nextEphemeralPort) ∉ s.table.listeners) :
    s.table.lookup (s.table.connect now iss localAddr remoteAddr remotePort).2.2 = none ∧
      ∀ k c, s.table.lookup k = some c →
        (s.table.connect now iss localAddr remoteAddr remotePort).1.lookup k = some c := by
  have hnum := h.numbered
  have hfree : s.table.lookup (s.table.connect now iss localAddr remoteAddr remotePort).2.2 =
      none := by
    cases hc : s.table.lookup (s.table.connect now iss localAddr remoteAddr remotePort).2.2 with
    | none => rfl
    | some c =>
        rcases hnum.port _ c hc with hk | ⟨i, hi, hk⟩
        · exact absurd hk hlis
        · exact absurd (hk.symm.trans hnum.next) (ephemeralPort_ne hi hn)
  refine ⟨hfree, fun k c hc ↦ ?_⟩
  refine (TcpTable.lookup_setConnection _ _ _ _).trans ((if_neg ?_).trans hc)
  rintro rfl
  cases hfree.symm.trans hc

theorem connect_fresh_second :
    ∃ s : Dialer, s.Reachable ∧ s.connects = 1 ∧ s.table.connections.entries.length = 1 ∧
      s.table.lookup (s.table.connect 0 7 1 2 80).2.2 = none ∧
      ∀ k c, s.table.lookup k = some c →
        (s.table.connect 0 7 1 2 80).1.lookup k = some c := by
  let s₁ := new.step (.connect 0 1000 1 2 80)
  have h₁ : s₁.Reachable := .tail _ (.start rfl) trivial
  exact ⟨s₁, h₁, rfl, by decide +kernel,
    connect_fresh h₁ (by decide +kernel) 0 7 1 2 80 (by decide +kernel)⟩

/-- `connect` to the same address over and over. -/
def redial : ℕ → Dialer
  | 0 => new
  | n + 1 => (redial n).step (.connect 0 1000 1 2 80)

theorem redial_reachable (n : ℕ) : (redial n).Reachable := by
  induction n with
  | zero => exact .start rfl
  | succ n ih => exact .tail _ ih trivial

theorem redial_connects (n : ℕ) : (redial n).connects = n := by
  induction n with
  | zero => rfl
  | succ n ih => exact congrArg (· + 1) ih

/-- The first of the connections is there until the counter comes round. -/
theorem lookup_redial {n : ℕ} (hn : n < 65536) :
    (redial (n + 1)).table.lookup ⟨1, 49152, 2, 80⟩ =
      some (TcpConnection.activeOpen 0 1000 ⟨1, 49152, 2, 80⟩).1 := by
  induction n with
  | zero => decide +kernel
  | succ n ih =>
      have hnext := (redial_reachable (n + 1)).numbered.next
      rw [redial_connects] at hnext
      have hne : (⟨1, 49152, 2, 80⟩ : ConnectionKey) ≠
          ⟨1, (redial (n + 1)).table.nextEphemeralPort, 2, 80⟩ := by
        intro hk
        have hport : ephemeralPort 0 = ephemeralPort (n + 1) :=
          (congrArg ConnectionKey.localPort hk).trans hnext
        exact ephemeralPort_ne (Nat.succ_pos n) hn hport
      exact (TcpTable.lookup_setConnection _ _ _ _).trans ((if_neg hne).trans (ih (by omega)))

/-- A connection that a listening port has accepted, and one that was opened 65536 calls
earlier: `connect` returns the key of either and overwrites the connection. -/
theorem exists_connect_overwrites :
    ∃ (s s' : Dialer) (k : ConnectionKey) (c c' : TcpConnection),
      s.Reachable ∧ (s.table.connect 0 7 1 2 80).2.2 = k ∧ s.table.lookup k = some c ∧
      c.state = .established ∧ (s.table.connect 0 7 1 2 80).1.lookup k ≠ some c ∧
      s'.Reachable ∧ s'.table.listeners = ∅ ∧ (s'.table.connect 0 7 1 2 80).2.2 = k ∧
      s'.table.lookup k = some c' ∧ c'.state = .synSent ∧
      (s'.table.connect 0 7 1 2 80).1.lookup k ≠ some c' := by
  let k : ConnectionKey := ⟨1, 49152, 2, 80⟩
  let syn : Packet := ⟨2, 1, ⟨80, 49152, 500, 0, 80, tcpSyn, 1000, 0, 0⟩, []⟩
  let ack : Packet := ⟨2, 1, ⟨80, 49152, 501, 1001, 80, tcpAck, 1000, 0, 0⟩, []⟩
  let s₁ := (new.step (.listen 1 49152 false)).step (.segment 0 1000 syn.ipHeader syn.segment)
  let s₂ := s₁.step (.segment 0 0 ack.ipHeader ack.segment)
  have h₂ : s₂.Reachable := .tail _ (.tail _ (.tail _ (.start rfl) trivial) trivial) trivial
  have hst : (s₂.table.lookup k).map (fun c ↦ c.state) = some .established := by decide +kernel
  obtain ⟨c, hc, hst⟩ := Option.map_eq_some_iff.mp hst
  have hkey : (s₂.table.connect 0 7 1 2 80).2.2 = k := by decide +kernel
  have hkey' : ((redial 65536).table.connect 0 7 1 2 80).2.2 = k := by
    have hnext := (redial_reachable 65536).numbered.next
    rw [redial_connects] at hnext
    exact congrArg (fun port ↦ (⟨1, port, 2, 80⟩ : ConnectionKey)) hnext
  have hlis (n : ℕ) : (redial n).table.listeners = ∅ := by
    induction n with
    | zero => rfl
    | succ n ih => exact ih
  have hnew := s₂.table.lookup_connect 0 7 1 2 80
  have hnew' := (redial 65536).table.lookup_connect 0 7 1 2 80
  rw [hkey] at hnew
  rw [hkey'] at hnew'
  refine ⟨s₂, redial 65536, k, c, (TcpConnection.activeOpen 0 1000 k).1, h₂, hkey, hc, hst, ?_,
    redial_reachable _, hlis _, hkey', lookup_redial (by decide), rfl, ?_⟩
  · intro h
    rw [← Option.some.inj (hnew.symm.trans h)] at hst
    cases hst
  · intro h
    have hiss := congrArg TcpConnection.iss (Option.some.inj (hnew'.symm.trans h))
    exact absurd hiss (by decide)

end Dialer

end MiniTcp
