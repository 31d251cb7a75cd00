import MiniTcp.Tcp.Table
import MiniTcp.Tcp.Track

/-!
# The table as a collection of tracks

`TcpTable.step` is the public interface of the table as one step function.  Every
call acts on each connection as at most one event of that connection, and opens at
most one.  A `Host` carries the track of every connection next to the table, so
that whatever is proved of the life of one connection holds of every connection in
the table.
-/

namespace MiniTcp

/-- A call of the table's public interface. -/
inductive TableEvent where
  | segment (now : Instant) (iss : UInt32) (ipHdr : IpHeader) (payload : Bytes)
  | tick (now : Instant)
  | listen (addr : UInt32) (port : UInt16) (reuseAddr : Bool)
  | accept (addr : UInt32) (port : UInt16)
  | connect (now : Instant) (iss localAddr remoteAddr : UInt32) (remotePort : UInt16)
  | send (now : Instant) (key : ConnectionKey) (data : Bytes)
  | recv (key : ConnectionKey) (len : ℕ)
  | close (now : Instant) (key : ConnectionKey)
  | setRecvCap (key : ConnectionKey) (cap : ℕ)
  | setSendCap (key : ConnectionKey) (cap : ℕ)

namespace TcpTable

def step (t : TcpTable) : TableEvent → TcpTable × List Emission
  | .segment now iss ipHdr payload => t.handleSegment now iss ipHdr payload
  | .tick now => t.tick now
  | .listen addr port reuseAddr => ((t.listen addr port reuseAddr).1, [])
  | .accept addr port => ((t.accept addr port).1, [])
  | .connect now iss localAddr remoteAddr remotePort =>
      ((t.connect now iss localAddr remoteAddr remotePort).1,
        (t.connect now iss localAddr remoteAddr remotePort).2.1)
  | .send now key data => t.send now key data
  | .recv key len => (t.recv key len, [])
  | .close now key => t.close now key
  | .setRecvCap key cap => (t.setRecvCap key cap, [])
  | .setSendCap key cap => (t.setSendCap key cap, [])

end TcpTable

namespace TableEvent

/-- What a call means to the connection under `k`. -/
def on (k : ConnectionKey) : TableEvent → Option ConnEvent
  | .segment now _ ipHdr payload =>
      match TcpTable.acceptedSegment ipHdr payload with
      | some (seg, data) =>
          if TcpTable.segmentKey ipHdr seg = k then some (.segment now seg data) else none
      | none => none
  | .tick now => some (.tick now)
  | .send now key data => if key = k then some (.send now data) else none
  | .recv key len => if key = k then some (.recv len) else none
  | .close now key => if key = k then some (.close now) else none
  | .setRecvCap key cap => if key = k then some (.setRecvCap cap) else none
  | .setSendCap key cap => if key = k then some (.setSendCap cap) else none
  | .listen .. | .accept .. | .connect .. => none

def opened (t : TcpTable) (k : ConnectionKey) : TableEvent → Option Track
  | .segment now iss ipHdr payload =>
      match TcpTable.acceptedSegment ipHdr payload with
      | some (seg, _) =>
          if TcpTable.segmentKey ipHdr seg = k ∧ t.lookup k = none ∧
              hasFlag seg.flags tcpSyn ∧ ¬ hasFlag seg.flags tcpAck ∧
              (ipHdr.dstAddr, seg.dstPort) ∈ t.listeners then
            some (.passive now iss k seg)
          else none
      | none => none
  | .connect now iss localAddr remoteAddr remotePort =>
      if ⟨localAddr, t.nextEphemeralPort, remoteAddr, remotePort⟩ = k then
        some (.active now iss k)
      else none
  | _ => none

variable {t : TcpTable} {k : ConnectionKey} {e : TableEvent} {ce : ConnEvent} {tr : Track}

/-- `on` as a relation: a case split meets only the calls that reach `k`. -/
inductive On (k : ConnectionKey) : TableEvent → ConnEvent → Prop
  | segment {now : Instant} {iss : UInt32} {ipHdr : IpHeader} {payload data : Bytes}
      {seg : TcpHeader} (hseg : TcpTable.acceptedSegment ipHdr payload = some (seg, data))
      (hkey : TcpTable.segmentKey ipHdr seg = k) :
      On k (.segment now iss ipHdr payload) (.segment now seg data)
  | tick (now : Instant) : On k (.tick now) (.tick now)
  | send (now : Instant) (data : Bytes) : On k (.send now k data) (.send now data)
  | recv (len : ℕ) : On k (.recv k len) (.recv len)
  | close (now : Instant) : On k (.close now k) (.close now)
  | setRecvCap (cap : ℕ) : On k (.setRecvCap k cap) (.setRecvCap cap)
  | setSendCap (cap : ℕ) : On k (.setSendCap k cap) (.setSendCap cap)

theorem on_cases (h : e.on k = some ce) : On k e ce := by
  cases e with
  | segment now iss ipHdr payload =>
      simp only [on] at h
      split at h
      · next seg data hseg =>
          obtain ⟨hkey, hce⟩ := Option.ite_none_right_eq_some.mp h
          obtain rfl := Option.some.inj hce
          exact .segment hseg hkey
      · cases h
  | tick now =>
      obtain rfl := Option.some.inj h
      exact .tick now
  | send | recv | close | setRecvCap | setSendCap =>
      obtain ⟨rfl, hce⟩ := Option.ite_none_right_eq_some.mp h
      obtain rfl := Option.some.inj hce
      constructor
  | listen | accept | connect => cases h

/-- `opened` as a relation. -/
inductive Opens (t : TcpTable) (k : ConnectionKey) : TableEvent → Track → Prop
  | segment {now : Instant} {iss : UInt32} {ipHdr : IpHeader} {payload data : Bytes}
      {seg : TcpHeader} (hseg : TcpTable.acceptedSegment ipHdr payload = some (seg, data))
      (hkey : TcpTable.segmentKey ipHdr seg = k) (hnone : t.lookup k = none)
      (hsyn : hasFlag seg.flags tcpSyn) (hack : ¬ hasFlag seg.flags tcpAck)
      (hlis : (ipHdr.dstAddr, seg.dstPort) ∈ t.listeners) :
      Opens t k (.segment now iss ipHdr payload) (.passive now iss k seg)
  | connect {now : Instant} {iss localAddr remoteAddr : UInt32} {remotePort : UInt16}
      (hkey : ⟨localAddr, t.nextEphemeralPort, remoteAddr, remotePort⟩ = k) :
      Opens t k (.connect now iss localAddr remoteAddr remotePort) (.active now iss k)

theorem opened_cases (h : e.opened t k = some tr) : Opens t k e tr := by
  cases e with
  | segment now iss ipHdr payload =>
      simp only [opened] at h
      split at h
      · next seg data hseg =>
          obtain ⟨⟨hkey, hnone, hsyn, hack, hlis⟩, htr⟩ := Option.ite_none_right_eq_some.mp h
          obtain rfl := Option.some.inj htr
          exact .segment hseg hkey hnone hsyn hack hlis
      · cases h
  | connect now iss localAddr remoteAddr remotePort =>
      obtain ⟨hkey, htr⟩ := Option.ite_none_right_eq_some.mp h
      obtain rfl := Option.some.inj htr
      exact .connect hkey
  | _ => cases h

theorem opened_key (h : e.opened t k = some tr) :
    (∃ now iss, tr = .active now iss k) ∨ ∃ now iss seg, tr = .passive now iss k seg := by
  cases opened_cases h with
  | segment => exact .inr ⟨_, _, _, rfl⟩
  | connect => exact .inl ⟨_, _, rfl⟩

theorem opened_spec (h : e.opened t k = some tr) : tr.Opened := by
  rcases opened_key h with ⟨now, iss, rfl⟩ | ⟨now, iss, seg, rfl⟩
  · exact .inl ⟨now, iss, k, rfl⟩
  · exact .inr ⟨now, iss, k, seg, rfl⟩

end TableEvent

def TcpConnection.after (c : TcpConnection) : Option ConnEvent → TcpConnection
  | some e => (c.step e).1
  | none => c

def TcpConnection.emits (c : TcpConnection) : Option ConnEvent → List Emission
  | some e => (c.step e).2.out
  | none => []

def ConnEvent.cleans : ConnEvent → Bool
  | .segment .. | .tick _ => true
  | _ => false

def Emission.IsReset (m : Emission) : Prop :=
  hasFlag m.flags tcpRst ∧ ¬ hasFlag m.flags tcpSyn ∧ m.data = []

namespace TcpTable

variable {t : TcpTable} {k : ConnectionKey} {c' : TcpConnection}

theorem acceptedSegment_spec {ipHdr : IpHeader} {payload data : Bytes} {seg : TcpHeader}
    (h : acceptedSegment ipHdr payload = some (seg, data)) :
    parseTcpHeader payload = some seg ∧ tcpChecksum ipHdr.srcAddr ipHdr.dstAddr payload = 0 ∧
      data = payload.drop tcpHeaderLen := by
  unfold acceptedSegment at h
  split at h
  · cases h
  · split at h
    · cases h
    · next seg' hparse =>
        split_ifs at h with hsum
        obtain ⟨rfl, rfl⟩ := Prod.mk.inj (Option.some.inj h)
        exact ⟨hparse, not_not.mp hsum, rfl⟩

theorem isReset_sendRstForUnknown (ipHdr : IpHeader) (seg : TcpHeader) (dataLen : ℕ) :
    (sendRstForUnknown ipHdr seg dataLen).IsReset := by
  unfold sendRstForUnknown Emission.IsReset Emission.flags
  dsimp only
  split_ifs <;> exact ⟨by decide, by decide, rfl⟩

/-- The part of a table that only `listen` and `connect` change. -/
def config (t : TcpTable) : Finset (UInt32 × UInt16) × UInt16 :=
  (t.listeners, t.nextEphemeralPort)

theorem config_handleSegment (t : TcpTable) (now : Instant) (iss : UInt32) (ipHdr : IpHeader)
    (payload : Bytes) : (t.handleSegment now iss ipHdr payload).1.config = t.config := by
  unfold handleSegment
  split
  · rfl
  · unfold demux processSegment
    dsimp only
    split
    · split_ifs <;> rfl
    · split_ifs <;> rfl

theorem config_accept (t : TcpTable) (addr : UInt32) (port : UInt16) :
    (t.accept addr port).1.config = t.config := by
  unfold accept
  split <;> rfl

theorem config_withConnection (t : TcpTable) (key : ConnectionKey)
    (f : TcpConnection → TcpConnection × List Emission) :
    (t.withConnection key f).1.config = t.config := by
  unfold withConnection
  split <;> rfl

theorem listeners_step_of_not_listen {e : TableEvent}
    (h : ∀ addr port reuseAddr, e ≠ .listen addr port reuseAddr) :
    (t.step e).1.listeners = t.listeners := by
  cases e with
  | segment => exact congrArg Prod.fst (config_handleSegment ..)
  | listen addr port reuseAddr => exact absurd rfl (h addr port reuseAddr)
  | accept => exact congrArg Prod.fst (config_accept ..)
  | tick | connect => rfl
  | send | recv | close | setRecvCap | setSendCap =>
      exact congrArg Prod.fst (config_withConnection ..)

theorem lookup_setConnection (t : TcpTable) (key k : ConnectionKey) (c : TcpConnection) :
    (t.setConnection key c).lookup k = if k = key then some c else t.lookup k :=
  AssocMap.lookup_insert_eq _ _ _ _

theorem lookup_cleanup (h : t.cleanupClosedConnections.lookup k = some c') :
    t.lookup k = some c' :=
  (AssocMap.lookup_retain_eq_some.mp h).1

theorem lookup_cleanup_setConnection (t : TcpTable) (key k : ConnectionKey) (c : TcpConnection) :
    (t.setConnection key c).cleanupClosedConnections.lookup k =
      (if k = key then some c else t.lookup k).filter fun c ↦ c.state != .closed := by
  rw [← lookup_setConnection]
  exact AssocMap.lookup_retain _ _ _

theorem lookup_withConnection (t : TcpTable) (key k : ConnectionKey)
    (f : TcpConnection → TcpConnection × List Emission) :
    (t.withConnection key f).1.lookup k =
      if key = k then (t.lookup k).map fun c ↦ (f c).1 else t.lookup k := by
  unfold withConnection
  by_cases hk : key = k
  · subst hk
    rw [if_pos rfl]
    cases h : t.lookup key with
    | none => exact h
    | some c => simp [lookup_setConnection]
  · rw [if_neg hk]
    cases h : t.lookup key with
    | none => rfl
    | some c => simp [lookup_setConnection, Ne.symm hk]

theorem lookup_withConnection_step {key : ConnectionKey} {e : ConnEvent}
    {f : TcpConnection → TcpConnection × List Emission} (hf : ∀ c, (f c).1 = (c.step e).1)
    (h : (t.withConnection key f).1.lookup k = some c') :
    ∃ c, t.lookup k = some c ∧ c' = c.after (if key = k then some e else none) := by
  rw [lookup_withConnection] at h
  split_ifs at h ⊢ with hk
  · obtain ⟨c, hc, rfl⟩ := Option.map_eq_some_iff.mp h
    exact ⟨c, hc, hf c⟩
  · exact ⟨c', h, rfl⟩

theorem mem_withConnection {key : ConnectionKey} {e : ConnEvent} {m : Emission}
    {f : TcpConnection → TcpConnection × List Emission} (hf : ∀ c, (f c).2 = (c.step e).2.out)
    (h : m ∈ (t.withConnection key f).2) :
    ∃ c, t.lookup key = some c ∧ m ∈ c.emits (if key = key then some e else none) := by
  unfold withConnection at h
  split at h
  · cases h
  · next c hc => exact ⟨c, hc, by simpa [TcpConnection.emits, ← hf c] using h⟩

/-! ## One call, one event per connection -/

theorem lookup_processSegment (t : TcpTable) (now : Instant) (key k : ConnectionKey)
    (c : TcpConnection) (seg : TcpHeader) (data : Bytes) :
    (t.processSegment now key c seg data).1.lookup k =
      if k = key then some (c.processSegment now seg data).conn else t.lookup k := by
  unfold processSegment
  dsimp only
  split_ifs with henqueue hk hk
  · exact (lookup_setConnection ..).trans (if_pos hk)
  · exact (lookup_setConnection ..).trans (if_neg hk)
  · exact (lookup_setConnection ..).trans (if_pos hk)
  · exact (lookup_setConnection ..).trans (if_neg hk)

theorem lookup_demux {now : Instant} {iss : UInt32} {ipHdr : IpHeader} {seg : TcpHeader}
    {data : Bytes} (h : (t.demux now iss ipHdr seg data).1.lookup k = some c') :
    (segmentKey ipHdr seg = k ∧ t.lookup k = none ∧ hasFlag seg.flags tcpSyn ∧
        ¬ hasFlag seg.flags tcpAck ∧ (ipHdr.dstAddr, seg.dstPort) ∈ t.listeners ∧
        c' = (TcpConnection.passiveOpen now iss k seg).1) ∨
      ∃ c, t.lookup k = some c ∧
        c' = c.after (if segmentKey ipHdr seg = k then some (.segment now seg data) else none) := by
  unfold demux at h
  dsimp only at h
  cases hlook : t.lookup (segmentKey ipHdr seg) with
  | some c =>
      rw [hlook] at h
      have h' := lookup_cleanup h
      rw [lookup_processSegment] at h'
      split_ifs at h' with hk
      · subst hk
        exact .inr ⟨c, hlook, by rw [if_pos rfl]; exact (Option.some.inj h').symm⟩
      · exact .inr ⟨c', h', by rw [if_neg (Ne.symm hk)]; rfl⟩
  | none =>
      rw [hlook] at h
      dsimp only at h
      split_ifs at h with hsyn hrst
      · rw [lookup_setConnection] at h
        split_ifs at h with hk
        · subst hk
          exact .inl ⟨rfl, hlook, hsyn.1, hsyn.2.1, hsyn.2.2, (Option.some.inj h).symm⟩
        · exact .inr ⟨c', h, by rw [if_neg (Ne.symm hk)]; rfl⟩
      all_goals
        have hk : segmentKey ipHdr seg ≠ k := by
          rintro rfl
          rw [hlook] at h
          cases h
        exact .inr ⟨c', h, by rw [if_neg hk]; rfl⟩

/-- Every connection after a call was opened by it or was there before and took
the event the call means to it. -/
theorem lookup_step {e : TableEvent} (h : (t.step e).1.lookup k = some c') :
    (∃ tr, e.opened t k = some tr ∧ tr.conn = c') ∨
      e.opened t k = none ∧ ∃ c, t.lookup k = some c ∧ c' = c.after (e.on k) := by
  cases e with
  | segment now iss ipHdr payload =>
      simp only [step, handleSegment, TableEvent.opened, TableEvent.on] at h ⊢
      cases hseg : acceptedSegment ipHdr payload with
      | none =>
          rw [hseg] at h
          exact .inr ⟨rfl, c', h, rfl⟩
      | some p =>
          rw [hseg] at h
          rcases lookup_demux h with ⟨hk, hnone, hsyn, hack, hlis, rfl⟩ | ⟨c, hc, hc'⟩
          · exact .inl ⟨_, if_pos ⟨hk, hnone, hsyn, hack, hlis⟩, rfl⟩
          · exact .inr ⟨if_neg (by simp [hc]), c, hc, hc'⟩
  | tick now =>
      have h' := lookup_cleanup h
      obtain ⟨c, hc, rfl⟩ :=
        Option.map_eq_some_iff.mp ((AssocMap.lookup_mapVals _ _ _).symm.trans h')
      exact .inr ⟨rfl, c, hc, rfl⟩
  | listen addr port reuseAddr =>
      refine .inr ⟨rfl, c', ?_, rfl⟩
      unfold step listen at h
      dsimp only at h
      split_ifs at h <;> exact h
  | accept addr port =>
      refine .inr ⟨rfl, c', ?_, rfl⟩
      unfold step accept at h
      dsimp only at h
      split at h <;> exact h
  | connect now iss localAddr remoteAddr remotePort =>
      simp only [step, connect, TableEvent.opened, lookup_setConnection] at h ⊢
      split_ifs at h with hk
      · subst hk
        exact .inl ⟨_, if_pos rfl, Option.some.inj h⟩
      · exact .inr ⟨if_neg (Ne.symm hk), c', h, rfl⟩
  | send now key data => exact .inr ⟨rfl, lookup_withConnection_step (fun _ ↦ rfl) h⟩
  | recv key len => exact .inr ⟨rfl, lookup_withConnection_step (fun _ ↦ rfl) h⟩
  | close now key => exact .inr ⟨rfl, lookup_withConnection_step (fun _ ↦ rfl) h⟩
  | setRecvCap key cap => exact .inr ⟨rfl, lookup_withConnection_step (fun _ ↦ rfl) h⟩
  | setSendCap key cap => exact .inr ⟨rfl, lookup_withConnection_step (fun _ ↦ rfl) h⟩

theorem lookup_step_open {e : TableEvent} {ce : ConnEvent}
    (h : (t.step e).1.lookup k = some c') (hon : e.on k = some ce) (hc : ce.cleans)
    (hlook : t.lookup k ≠ none) : c'.state ≠ .closed := by
  have hclean {t₀ : TcpTable} (h : t₀.cleanupClosedConnections.lookup k = some c') :
      c'.state ≠ .closed := by
    simpa using (AssocMap.lookup_retain_eq_some.mp h).2
  cases TableEvent.on_cases hon with
  | segment hseg hkey =>
      subst hkey
      obtain ⟨c, hlook⟩ := Option.ne_none_iff_exists'.mp hlook
      simp only [step, handleSegment, hseg, demux, hlook] at h
      exact hclean h
  | tick now => exact hclean h
  | send | recv | close | setRecvCap | setSendCap => cases hc

theorem lookup_cleanup_of_open (hc : t.lookup k = some c') (hst : c'.state ≠ .closed) :
    t.cleanupClosedConnections.lookup k = some c' :=
  AssocMap.lookup_retain_eq_some.mpr ⟨hc, by simpa using hst⟩

theorem lookup_demux_of_open {now : Instant} {iss : UInt32} {ipHdr : IpHeader} {seg : TcpHeader}
    {data : Bytes} {c : TcpConnection} (hc : t.lookup k = some c)
    (hopen : (c.after (if segmentKey ipHdr seg = k then some (.segment now seg data)
      else none)).state ≠ .closed) :
    (t.demux now iss ipHdr seg data).1.lookup k =
      some (c.after (if segmentKey ipHdr seg = k then some (.segment now seg data) else none)) := by
  unfold demux
  dsimp only
  by_cases hk : segmentKey ipHdr seg = k
  · rw [if_pos hk] at hopen ⊢
    subst hk
    rw [hc]
    exact lookup_cleanup_of_open ((lookup_processSegment ..).trans (if_pos rfl)) hopen
  · rw [if_neg hk] at hopen ⊢
    cases t.lookup (segmentKey ipHdr seg) with
    | some c₀ =>
        refine lookup_cleanup_of_open ?_ hopen
        exact ((lookup_processSegment ..).trans (if_neg (Ne.symm hk))).trans hc
    | none =>
        dsimp only
        split_ifs
        · exact ((lookup_setConnection ..).trans (if_neg (Ne.symm hk))).trans hc
        · exact hc
        · exact hc

/-- A connection that is not replaced and not closed by a call is still there. -/
theorem lookup_step_of_open {e : TableEvent} {c : TcpConnection} (hc : t.lookup k = some c)
    (hopened : e.opened t k = none) (hopen : (c.after (e.on k)).state ≠ .closed) :
    (t.step e).1.lookup k = some (c.after (e.on k)) := by
  have hwith (key : ConnectionKey) (ce : ConnEvent)
      (f : TcpConnection → TcpConnection × List Emission) (hf : (f c).1 = (c.step ce).1) :
      (t.withConnection key f).1.lookup k =
        some (c.after (if key = k then some ce else none)) := by
    rw [lookup_withConnection, hc]
    split_ifs
    · exact congrArg some hf
    · rfl
  cases e with
  | segment now iss ipHdr payload =>
      simp only [step, handleSegment, TableEvent.on] at hopen ⊢
      cases hseg : acceptedSegment ipHdr payload with
      | none => exact hc
      | some p =>
          rw [hseg] at hopen
          exact lookup_demux_of_open hc hopen
  | tick now =>
      refine lookup_cleanup_of_open ?_ hopen
      exact (AssocMap.lookup_mapVals _ _ _).trans (by rw [← lookup, hc]; rfl)
  | listen addr port reuseAddr =>
      simp only [step, listen]
      split_ifs <;> exact hc
  | accept addr port =>
      simp only [step, accept]
      split <;> exact hc
  | connect now iss localAddr remoteAddr remotePort =>
      have hne : (⟨localAddr, t.nextEphemeralPort, remoteAddr, remotePort⟩ :
          ConnectionKey) ≠ k := by
        intro hk
        rw [TableEvent.opened, if_pos hk] at hopened
        cases hopened
      exact ((lookup_setConnection ..).trans (if_neg hne.symm)).trans hc
  | send now key data => exact hwith key _ _ rfl
  | recv key len => exact hwith key _ _ rfl
  | close now key => exact hwith key _ _ rfl
  | setRecvCap key cap => exact hwith key _ _ rfl
  | setSendCap key cap => exact hwith key _ _ rfl

theorem lookup_opened {e : TableEvent} {tr : Track} (h : e.opened t k = some tr) :
    (t.step e).1.lookup k = some tr.conn := by
  cases TableEvent.opened_cases h with
  | segment hseg hkey hnone hsyn hack hlis =>
      subst hkey
      simp only [step, handleSegment, hseg, demux, hnone]
      rw [if_pos ⟨hsyn, hack, hlis⟩]
      simp [lookup_setConnection, Track.passive]
  | connect hkey =>
      subst hkey
      simp [step, connect, lookup_setConnection, Track.active]

theorem mem_demux {now : Instant} {iss : UInt32} {ipHdr : IpHeader} {seg : TcpHeader}
    {data : Bytes} {m : Emission} (h : m ∈ (t.demux now iss ipHdr seg data).2) :
    (∃ c, t.lookup (segmentKey ipHdr seg) = some c ∧
        m ∈ c.emits (some (.segment now seg data))) ∨
      (t.lookup (segmentKey ipHdr seg) = none ∧ hasFlag seg.flags tcpSyn ∧
        ¬ hasFlag seg.flags tcpAck ∧ (ipHdr.dstAddr, seg.dstPort) ∈ t.listeners ∧
        m ∈ (TcpConnection.passiveOpen now iss (segmentKey ipHdr seg) seg).2) ∨
      m = sendRstForUnknown ipHdr seg data.length := by
  unfold demux at h
  dsimp only at h
  cases hlook : t.lookup (segmentKey ipHdr seg) with
  | some c =>
      rw [hlook] at h
      exact .inl ⟨c, rfl, h⟩
  | none =>
      rw [hlook] at h
      dsimp only at h
      split_ifs at h with hsyn hrst
      · exact .inr (.inl ⟨rfl, hsyn.1, hsyn.2.1, hsyn.2.2, h⟩)
      · cases h
      · exact .inr (.inr (List.mem_singleton.mp h))

/-- Every segment sent by a call comes from a connection it opened, from a
connection that took an event, or is a reset. -/
theorem mem_step {e : TableEvent} {m : Emission} (h : m ∈ (t.step e).2) :
    (∃ k tr, e.opened t k = some tr ∧ m ∈ tr.hist.out) ∨
      (∃ k c, t.lookup k = some c ∧ e.opened t k = none ∧ m ∈ c.emits (e.on k)) ∨
      m.IsReset := by
  cases e with
  | segment now iss ipHdr payload =>
      simp only [step, handleSegment, TableEvent.opened, TableEvent.on] at h ⊢
      cases hseg : acceptedSegment ipHdr payload with
      | none =>
          rw [hseg] at h
          cases h
      | some p =>
          rw [hseg] at h
          rcases mem_demux h with ⟨c, hc, hm⟩ | ⟨hnone, hsyn, hack, hlis, hm⟩ | rfl
          · refine .inr (.inl ⟨_, c, hc, if_neg (by simp [hc]), ?_⟩)
            dsimp only
            rw [if_pos rfl]
            exact hm
          · exact .inl ⟨_, _, if_pos ⟨rfl, hnone, hsyn, hack, hlis⟩, hm⟩
          · exact .inr (.inr (isReset_sendRstForUnknown ..))
  | tick now =>
      obtain ⟨c, hc, hm⟩ := List.mem_flatMap.mp h
      obtain ⟨k, hk⟩ := AssocMap.mem_values.mp hc
      exact .inr (.inl ⟨k, c, hk, rfl, hm⟩)
  | connect now iss localAddr remoteAddr remotePort => exact .inl ⟨_, _, if_pos rfl, h⟩
  | send now key data =>
      obtain ⟨c, hc, hm⟩ := mem_withConnection (e := .send now data) (fun _ ↦ rfl) h
      exact .inr (.inl ⟨key, c, hc, rfl, hm⟩)
  | close now key =>
      obtain ⟨c, hc, hm⟩ := mem_withConnection (e := .close now) (fun _ ↦ rfl) h
      exact .inr (.inl ⟨key, c, hc, rfl, hm⟩)
  | _ => cases h

end TcpTable

/-! ## Hosts -/

def Track.after (t : Track) : Option ConnEvent → Track
  | some e => t.step e
  | none => t

theorem Track.conn_after (t : Track) (e : Option ConnEvent) :
    (t.after e).conn = t.conn.after e := by
  cases e <;> rfl

/-- A table together with the track of each of its connections. -/
structure Host where
  table : TcpTable
  tracks : ConnectionKey → Option Track
  agree : ∀ k, table.lookup k = (tracks k).map Track.conn

namespace Host

def new : Host where
  table := TcpTable.new
  tracks _ := none
  agree _ := rfl

variable {h : Host} {k : ConnectionKey} {e : TableEvent} {t t' : Track}

theorem lookup_of_track (ht : h.tracks k = some t) : h.table.lookup k = some t.conn := by
  rw [h.agree, ht]
  rfl

def nextTrack (h : Host) (e : TableEvent) (k : ConnectionKey) : Option Track :=
  if (h.table.step e).1.lookup k = none then none
  else (e.opened h.table k).or ((h.tracks k).map fun t ↦ t.after (e.on k))

theorem nextTrack_agree (h : Host) (e : TableEvent) (k : ConnectionKey) :
    (h.table.step e).1.lookup k = (h.nextTrack e k).map Track.conn := by
  unfold nextTrack
  cases hlook : (h.table.step e).1.lookup k with
  | none => simp
  | some c' =>
      rw [if_neg (by simp)]
      rcases TcpTable.lookup_step hlook with ⟨tr, htr, rfl⟩ | ⟨hnone, c, hc, rfl⟩
      · simp [htr]
      · rw [h.agree] at hc
        obtain ⟨t, ht, rfl⟩ := Option.map_eq_some_iff.mp hc
        simp [hnone, ht, Track.conn_after]

def step (h : Host) (e : TableEvent) : Host where
  table := (h.table.step e).1
  tracks := h.nextTrack e
  agree := h.nextTrack_agree e

def out (h : Host) (e : TableEvent) : List Emission := (h.table.step e).2

theorem tracks_step (ht : (h.step e).tracks k = some t') :
    e.opened h.table k = some t' ∨
      e.opened h.table k = none ∧ ∃ t, h.tracks k = some t ∧ t' = t.after (e.on k) := by
  change h.nextTrack e k = some t' at ht
  unfold nextTrack at ht
  split_ifs at ht
  cases hopen : e.opened h.table k with
  | some tr =>
      rw [hopen] at ht
      exact .inl ht
  | none =>
      rw [hopen, Option.none_or] at ht
      obtain ⟨t, ht₀, rfl⟩ := Option.map_eq_some_iff.mp ht
      exact .inr ⟨rfl, t, ht₀, rfl⟩

theorem tracks_opened (hopen : e.opened h.table k = some t) : (h.step e).tracks k = some t := by
  change h.nextTrack e k = some t
  rw [nextTrack, TcpTable.lookup_opened hopen, if_neg (by simp), hopen, Option.some_or]

theorem mem_out {m : Emission} (hm : m ∈ h.out e) :
    (∃ k t, e.opened h.table k = some t ∧ m ∈ t.hist.out) ∨
      (∃ k t, h.tracks k = some t ∧ e.opened h.table k = none ∧
        m ∈ (t.after (e.on k)).hist.out) ∨
      m.IsReset := by
  rcases TcpTable.mem_step hm with hopen | ⟨k, c, hc, hnone, hm⟩ | hrst
  · exact .inl hopen
  · rw [h.agree] at hc
    obtain ⟨t, ht, rfl⟩ := Option.map_eq_some_iff.mp hc
    refine .inr (.inl ⟨k, t, ht, hnone, ?_⟩)
    cases hon : e.on k with
    | none =>
        rw [hon] at hm
        cases hm
    | some ce =>
        rw [hon] at hm
        exact List.mem_append_right _ hm
  · exact .inr (.inr hrst)

theorem out_segment {now : Instant} {iss : UInt32} {ipHdr : IpHeader} {payload : Bytes}
    {seg : TcpHeader} {data : Bytes}
    (hseg : TcpTable.acceptedSegment ipHdr payload = some (seg, data))
    (ht : h.tracks (TcpTable.segmentKey ipHdr seg) = some t) :
    h.out (.segment now iss ipHdr payload) = (t.conn.processSegment now seg data).out := by
  simp only [out, TcpTable.step, TcpTable.handleSegment, hseg, TcpTable.demux,
    lookup_of_track ht, TcpTable.processSegment]

def Admits (g : Guard) (h : Host) (e : TableEvent) : Prop :=
  ∀ k t ce, h.tracks k = some t → e.on k = some ce → g.Admits t.conn ce

theorem admits_of_call {g : Guard}
    (hseg : ∀ now iss ipHdr payload, e ≠ .segment now iss ipHdr payload)
    (hcap : ∀ key cap, e ≠ .setRecvCap key cap) : h.Admits g e := by
  intro k t ce _ hon
  cases TableEvent.on_cases hon with
  | segment => exact absurd rfl (hseg _ _ _ _)
  | setRecvCap cap => exact absurd rfl (hcap k cap)
  | tick | send | recv | close | setSendCap => trivial

theorem admits_segment {g : Guard} {now : Instant} {iss : UInt32} {ipHdr : IpHeader}
    {payload : Bytes} (seg : TcpHeader) (data : Bytes)
    (hseg : TcpTable.acceptedSegment ipHdr payload = some (seg, data))
    (hg : ∀ t, h.tracks (TcpTable.segmentKey ipHdr seg) = some t →
      g.Admits t.conn (.segment now seg data)) :
    h.Admits g (.segment now iss ipHdr payload) := by
  intro k t ce ht hon
  simp only [TableEvent.on, hseg, Option.ite_none_right_eq_some, Option.some.injEq] at hon
  obtain ⟨rfl, rfl⟩ := hon
  exact hg t ht

def Reachable (g : Guard) : Host → Prop := Run.Reaches (· = new) (Admits g) step

theorem reachable_new (g : Guard) : new.Reachable g := .start rfl

theorem admits_empty (h : Host) (e : TableEvent) : h.Admits {} e := by
  intro k t ce _ _
  exact Guard.admits_empty t.conn ce

/-- Without a guard every call may follow. -/
theorem Reachable.call (hh : Reachable {} h) (e : TableEvent) : (h.step e).Reachable {} :=
  .tail e hh (h.admits_empty e)

/-- A run that meets some condition is a run. -/
theorem Reachable.of_reaches {ok : Host → TableEvent → Prop}
    (hh : Run.Reaches (· = new) ok step h) : h.Reachable {} :=
  hh.mono fun h e _ ↦ h.admits_empty e

/-- Every connection in the table has led a life that meets the guard. -/
theorem Reachable.track {g : Guard} (hh : Reachable g h) (ht : h.tracks k = some t) :
    t.Reachable g := by
  induction hh generalizing k t with
  | start hnew =>
      subst hnew
      cases ht
  | tail e _ he ih =>
      rcases tracks_step ht with hopen | ⟨-, t₀, ht₀, rfl⟩
      · exact .start (TableEvent.opened_spec hopen)
      · cases hon : e.on k with
        | none => exact ih ht₀
        | some ce => exact .tail ce (ih ht₀) (he k t₀ ce ht₀ hon)

/-! A host that has connected to port 80 of host 2. -/

def connected : Host :=
  let synAck : Packet := ⟨2, 1, ⟨80, 49152, 500, 1001, 80, tcpSyn ||| tcpAck, 1000, 0, 0⟩, []⟩
  (new.step (.connect 0 1000 1 2 80)).step (.segment 0 0 synAck.ipHeader synAck.segment)

theorem reachable_connected : connected.Reachable {} := ((reachable_new {}).call _).call _

end Host

end MiniTcp
