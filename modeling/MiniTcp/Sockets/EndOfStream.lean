import MiniTcp.StackRun
import MiniTcp.Tcp.Abort

/-!
# The end of the stream

`recv` returns 0 when the peer has closed and nothing is left to return.  To say what the
peer had sent by then, a run of the stack carries the host behind its TCP table, so that
the history of every connection is the one of this run.  If nothing cuts the connection
off before the peer's FIN is consumed and everything is returned, a 0 comes behind the FIN
and behind the last byte.  A connection that was aborted is not there any more, and `recv`
returns 0 for it as well.
-/

namespace MiniTcp

open Serial

namespace Host

def run (h : Host) (es : List TableEvent) : Host := es.foldl step h

theorem table_run (h : Host) (es : List TableEvent) : (h.run es).table = h.table.run es := by
  induction es generalizing h with
  | nil => rfl
  | cons e es ih => exact ih (h.step e)

theorem run_append (h : Host) (es es' : List TableEvent) :
    h.run (es ++ es') = (h.run es).run es' :=
  List.foldl_append

theorem Reachable.run {h : Host} (hh : h.Reachable {}) (es : List TableEvent) :
    (h.run es).Reachable {} := by
  induction es generalizing h with
  | nil => exact hh
  | cons e es ih => exact ih (hh.call e)

end Host

namespace Stack

/-- The calls of the TCP table along calls that do not wait. -/
def callsAlong : Stack → List StackEvent → List TableEvent
  | _, [] => []
  | s, e :: es => s.calls e ++ callsAlong (s.step e) es

theorem foldl_step_tcp {s : Stack} {es : List StackEvent} (hes : ∀ e ∈ es, e.Immediate) :
    (es.foldl step s).tcp = s.tcp.run (s.callsAlong es) := by
  induction es generalizing s with
  | nil => rfl
  | cons e es ih =>
      rw [List.foldl_cons, ih fun e' he' ↦ hes e' (List.mem_cons_of_mem e he'),
        step_tcp (hes e List.mem_cons_self), callsAlong, TcpTable.run_append]

/-- The calls of the TCP table along any calls. -/
def callsOf : Stack → List StackEvent → List TableEvent
  | _, [] => []
  | s, e :: es => s.callsAlong (s.phases e) ++ callsOf (s.step e) es

theorem step_callsAlong (s : Stack) (e : StackEvent) :
    (s.step e).tcp = s.tcp.run (s.callsAlong (s.phases e)) := by
  rw [← step_phases, foldl_step_tcp fun _ ↦ immediate_of_mem_phases]

end Stack

/-! ## Runs with their history -/

/-- A stack together with the host behind its TCP table. -/
structure Recorded where
  stack : Stack
  host : Host
  agree : host.table = stack.tcp

namespace Recorded

def new (selfAddr : UInt32) : Recorded where
  stack := .new selfAddr
  host := .new
  agree := rfl

theorem agree_step (r : Recorded) (e : StackEvent) :
    (r.host.run (r.stack.callsAlong (r.stack.phases e))).table = (r.stack.step e).tcp := by
  rw [Host.table_run, r.agree, Stack.step_callsAlong]

def step (r : Recorded) (e : StackEvent) : Recorded where
  stack := r.stack.step e
  host := r.host.run (r.stack.callsAlong (r.stack.phases e))
  agree := r.agree_step e

def Reachable : Recorded → Prop :=
  Run.Reaches (fun r ↦ ∃ selfAddr, r = new selfAddr) (fun _ (_ : StackEvent) ↦ True) step

variable {r : Recorded}

theorem reachable_new (selfAddr : UInt32) : (new selfAddr).Reachable := .start ⟨selfAddr, rfl⟩

theorem Reachable.call (h : r.Reachable) (e : StackEvent) : (r.step e).Reachable :=
  .tail e h trivial

theorem Reachable.host (h : r.Reachable) : r.host.Reachable {} := by
  refine Run.Reaches.invariant (P := fun r : Recorded ↦ r.host.Reachable {}) ?_ ?_ h
  · rintro r ⟨selfAddr, rfl⟩
    exact Host.reachable_new {}
  · intro r e _ _ hr
    exact hr.run _

theorem host_foldl (r : Recorded) (es : List StackEvent) :
    (es.foldl step r).host = r.host.run (r.stack.callsOf es) := by
  induction es generalizing r with
  | nil => rfl
  | cons e es ih =>
      rw [Stack.callsOf, Host.run_append]
      exact ih (r.step e)

/-- Every run of the stack can be recorded. -/
theorem exists_of_reachable {s : Stack} (h : s.Reachable) :
    ∃ r : Recorded, r.Reachable ∧ r.stack = s := by
  induction h with
  | start hnew =>
      obtain ⟨selfAddr, rfl⟩ := hnew
      exact ⟨new selfAddr, reachable_new selfAddr, rfl⟩
  | tail e _ _ ih =>
      obtain ⟨r, hr, rfl⟩ := ih
      exact ⟨r.step e, hr.call e, rfl⟩

end Recorded

/-! ## Read to the end -/

namespace Track

variable {t : Track} {g : Guard}

/-- The peer's FIN was consumed, and all that came before it was returned. -/
def ReadOut (t : Track) : Prop := t.hist.fin = true ∧ t.received = t.hist.returned

/-- Once the FIN is consumed, `rcv_nxt` stands behind the SYN, every byte and the FIN. -/
theorem Reachable.rcvNxt_of_fin (h : t.Reachable g) (hfin : t.hist.fin = true) :
    t.conn.rcvNxt = shift t.conn.irs (1 + (t.received.length + 1)) := by
  have hsyn : t.hist.syn = true := by
    by_contra hne
    have hno := (h.rcvCount.1 (by simpa using hne)).fin
    rw [hfin] at hno
    cases hno
  obtain ⟨-, -, hcount⟩ := h.rcvCount.2 hsyn
  rw [hcount, hfin]
  rfl

end Track

namespace Host

variable {h : Host} {k : ConnectionKey} {t : Track} {e : TableEvent} {es : List TableEvent}

/-- The call does not cut the connection under `k` off: no RST for it is accepted, it is not
given up and not closed, and no new connection takes its place. -/
def Spares (k : ConnectionKey) (h : Host) (e : TableEvent) : Prop :=
  ¬ h.table.Aborts k e ∧ e.opened h.table k = none ∧ ∀ now, e.on k ≠ some (.close now)

/-- Nothing cuts the connection off until it is read to its end. -/
def SparesUntilRead (k : ConnectionKey) : Host → List TableEvent → Prop
  | _, [] => True
  | h, e :: es => (∃ t, h.tracks k = some t ∧ t.ReadOut) ∨
      h.Spares k e ∧ SparesUntilRead k (h.step e) es

theorem Spares.tracks (he : h.Spares k e) (ht : h.tracks k = some t) (hun : t.conn.Unclosed) :
    (h.step e).tracks k = some (t.after (e.on k)) ∧ (t.after (e.on k)).conn.Unclosed := by
  have hafter : (t.after (e.on k)).conn.Unclosed := by
    rw [Track.conn_after]
    exact TcpTable.unclosed_after (lookup_of_track ht) hun he.1 he.2.2
  exact ⟨tracks_of_open ht he.2.1 hafter.ne_closed, hafter⟩

/-- Along such calls the connection is read to its end at some moment, or it is still there
at the end of them. -/
theorem SparesUntilRead.cases (hes : SparesUntilRead k h es) (ht : h.tracks k = some t)
    (hun : t.conn.Unclosed) :
    ∃ es' t', ∃ ces : List ConnEvent, es' <+: es ∧ (h.run es').tracks k = some t' ∧
      t' = ces.foldl Track.step t ∧ (t'.ReadOut ∨ es' = es ∧ t'.conn.Unclosed) := by
  induction es generalizing h t with
  | nil => exact ⟨[], t, [], List.prefix_refl _, ht, rfl, .inr ⟨rfl, hun⟩⟩
  | cons e es ih =>
      rcases hes with ⟨t₁, ht₁, hread⟩ | ⟨he, hes⟩
      · obtain rfl := Option.some.inj (ht.symm.trans ht₁)
        exact ⟨[], t, [], List.nil_prefix, ht, rfl, .inl hread⟩
      · obtain ⟨htracks, hun'⟩ := he.tracks ht hun
        obtain ⟨es', t', ces, hpre, ht', hces, hend⟩ := ih hes htracks hun'
        refine ⟨e :: es', t', (e.on k).toList ++ ces, List.cons_prefix_cons.mpr ⟨rfl, hpre⟩, ht',
          ?_, hend.imp_right fun hall ↦ ⟨by rw [hall.1], hall.2⟩⟩
        rw [hces, List.foldl_append]
        cases e.on k <;> rfl

end Host

/-! ## What a result of 0 means -/

namespace Stack

variable {s : Stack} {α : Type} {key : ConnectionKey} {len : ℕ}

/-- A result of a waiting call is that of its last poll, unless the time is over. -/
theorem of_block {poll : Stack → Stack × Option α} {expired : Instant → Option α}
    {pumps : List Pump} {r : α} (h : (block poll expired pumps s).2.2 = some r) :
    (∃ s₀, (poll s₀).2 = some r ∧ (block poll expired pumps s).1 = (poll s₀).1) ∨
      ∃ now, expired now = some r := by
  induction pumps generalizing s with
  | nil => exact .inl ⟨s, h, rfl⟩
  | cons p pumps ih =>
      unfold block at h ⊢
      rcases hp : poll s with ⟨s₁, _ | r'⟩
      · rw [hp] at h
        cases hexp : expired p.checked with
        | some r' =>
            rw [hexp] at h
            exact .inr ⟨p.checked, hexp.trans h⟩
        | none =>
            rw [hexp] at h
            exact ih h
      · rw [hp] at h
        exact .inl ⟨s, by rw [hp]; exact h, by rw [hp]⟩

theorem recvPoll_zero {data : Bytes} (h : (recvPoll key len s).2 = some (0, data)) :
    s.tcp.recvResult key len = [] ∧ (recvPoll key len s).1.tcp = s.tcp.recv key len ∧
      (recvPoll key len s).1.tcpRemoteClosedNoMoreData key := by
  unfold recvPoll at h ⊢
  dsimp only at h ⊢
  split_ifs at h ⊢ with hdata hclosed
  · have hzero := congrArg Prod.fst (Option.some.inj h)
    dsimp only at hzero
    omega
  · exact ⟨List.eq_nil_of_length_eq_zero (by omega), rfl, hclosed⟩

theorem lookup_recv_of_empty {t : TcpTable} {c : TcpConnection} (hlen : 0 < len)
    (hempty : t.recvResult key len = []) (hc : (t.recv key len).lookup key = some c) :
    c.recvBuffer = [] := by
  rw [TcpTable.recv, TcpTable.lookup_withConnection, if_pos rfl] at hc
  obtain ⟨c₀, hc₀, rfl⟩ := Option.map_eq_some_iff.mp hc
  have hnil : c₀.recvBuffer = [] := by
    rw [TcpTable.recvResult, hc₀] at hempty
    rcases List.take_eq_nil_iff.mp hempty with hmin | hnil
    · exact List.eq_nil_of_length_eq_zero (by omega)
    · exact hnil
  change c₀.recvBuffer.drop _ = []
  rw [hnil, List.drop_nil]

theorem finTaken_of_remoteClosed {c : TcpConnection} (h : s.tcpRemoteClosedNoMoreData key)
    (hc : s.tcp.lookup key = some c) : c.state.finTaken := by
  rw [tcpRemoteClosedNoMoreData, hc] at h
  cases hs : c.state <;> simp_all [TcpState.finTaken]

theorem recv_zero {id : SocketId} {sock : Socket} {start : Instant} {pumps : List Pump}
    {data : Bytes} {c : TcpConnection} (hsock : s.socketOf id = some sock)
    (hkey : sock.connKey = some key) (hlen : 0 < len)
    (h : (s.recv id len start pumps).2.2 = some (0, data))
    (hc : (s.recv id len start pumps).1.tcp.lookup key = some c) :
    c.recvBuffer = [] ∧ c.state.finTaken := by
  simp only [recv, hsock, hkey] at h hc
  rcases of_block h with ⟨s₀, hpoll, hend⟩ | ⟨now, hexp⟩
  · obtain ⟨hempty, htcp, hclosed⟩ := recvPoll_zero hpoll
    rw [hend] at hc
    refine ⟨?_, finTaken_of_remoteClosed hclosed hc⟩
    rw [htcp] at hc
    exact lookup_recv_of_empty hlen hempty hc
  · split_ifs at hexp
    cases congrArg Prod.fst (Option.some.inj hexp)

end Stack

namespace Recorded

variable {r : Recorded}

/-- From any moment at which a connection is there and the application has not closed it: if
nothing cuts it off before it is read to its end, then a `recv` that returns 0, after
whatever calls, comes when the peer's FIN was consumed in its place and every byte before
it was returned. -/
theorem zero_is_end_of_stream {id : SocketId} {sock : Socket} {key : ConnectionKey} {len : ℕ}
    {start : Instant} {pumps : List Pump} {data : Bytes} {t : Track} (es : List StackEvent)
    (hr : r.Reachable) (ht : r.host.tracks key = some t) (hun : t.conn.Unclosed)
    (hspares : r.host.SparesUntilRead key (r.stack.callsOf (es ++ [.recv id len start pumps])))
    (hsock : (es.foldl step r).stack.socketOf id = some sock) (hkey : sock.connKey = some key)
    (hlen : 0 < len) (h : ((es.foldl step r).stack.recv id len start pumps).2.2 = some (0, data)) :
    ∃ calls t', ∃ ces : List ConnEvent,
      calls <+: r.stack.callsOf (es ++ [.recv id len start pumps]) ∧
      (r.host.run calls).tracks key = some t' ∧ t' = ces.foldl Track.step t ∧
      t'.hist.fin = true ∧ t'.received = t'.hist.returned ∧
      t'.conn.rcvNxt = shift t'.conn.irs (1 + (t'.hist.returned.length + 1)) := by
  obtain ⟨calls, t', ces, hpre, ht', hces, hend⟩ := hspares.cases ht hun
  have hreach : t'.Reachable {} := (hr.host.run calls).track ht'
  have hread : t'.ReadOut := by
    rcases hend with hread | ⟨hall, hun'⟩
    · exact hread
    · -- the connection is still there when `recv` returns
      have hhost := host_foldl r (es ++ [.recv id len start pumps])
      rw [hall, ← hhost, List.foldl_append] at ht'
      have hc : ((es.foldl step r).stack.recv id len start pumps).1.tcp.lookup key =
          some t'.conn := by
        have hlook := Host.lookup_of_track ht'
        rw [Recorded.agree] at hlook
        exact hlook
      obtain ⟨hempty, htaken⟩ := Stack.recv_zero hsock hkey hlen h hc
      refine ⟨(hreach.fin_eq hun'.ne_closed).trans htaken, ?_⟩
      rw [Track.received, TcpConnection.received, hempty, List.append_nil]
  refine ⟨calls, t', ces, hpre, ht', hces, hread.1, hread.2, ?_⟩
  rw [hreach.rcvNxt_of_fin hread.1, hread.2]

/-! Socket 1 is connected to port 80 of host 2. -/

def connected : Recorded :=
  let synAck : Packet := ⟨2, 1, ⟨80, 49152, 500, 1001, 80, tcpSyn ||| tcpAck, 1000, 0, 0⟩, []⟩
  ((new 1).step .socket).step (.connect 1 0 1000 2 80 [⟨some synAck.bytes, 0, 0, 0, 0⟩])

theorem reachable_connected : connected.Reachable := ((reachable_new 1).call _).call _

/-- The peer has sent two bytes and a FIN. -/
def finished : Recorded :=
  let fin : Packet := ⟨2, 1, ⟨80, 49152, 501, 1001, 80, tcpFin ||| tcpAck, 1000, 0, 0⟩, [1, 2]⟩
  connected.step (.pump ⟨some fin.bytes, 0, 0, 0, 0⟩)

theorem spares_recv (k : ConnectionKey) (h : Host) (key : ConnectionKey) (len : ℕ) :
    h.Spares k (.recv key len) := by
  have hon {ce : ConnEvent} (hce : (TableEvent.recv key len).on k = some ce) : ce = .recv len := by
    rw [TableEvent.on] at hce
    split_ifs at hce
    exact (Option.some.inj hce).symm
  refine ⟨?_, rfl, fun now hclose ↦ ?_⟩
  · rintro ⟨c, ce, -, hce, habort⟩
    rw [hon hce] at habort
    exact habort
  · cases hon hclose

/-- The first `recv` returns the bytes, and the second one 0. -/
theorem zero_is_end_of_stream_drained :
    ((finished.step (.recv 1 10 0 [])).stack.recv 1 10 0 []).2.2 = some (0, []) ∧
      ∃ calls t, (finished.host.run calls).tracks ⟨1, 49152, 2, 80⟩ = some t ∧
        t.hist.fin = true ∧ t.received = t.hist.returned := by
  have hfacts : (finished.host.tracks ⟨1, 49152, 2, 80⟩).map
      (fun t ↦ (t.conn.state, t.conn.pendingClose, t.hist.returned)) =
        some (.closeWait, false, []) := by
    decide +kernel
  obtain ⟨t, ht, hval⟩ := Option.map_eq_some_iff.mp hfacts
  simp only [Prod.mk.injEq] at hval
  obtain ⟨hst, hclose, -⟩ := hval
  have hzero : ((finished.step (.recv 1 10 0 [])).stack.recv 1 10 0 []).2.2 = some (0, []) := by
    decide +kernel
  have hsock : (finished.step (.recv 1 10 0 [])).stack.socketOf 1 =
      some { kind := .tcp, connKey := some ⟨1, 49152, 2, 80⟩ } := by
    decide +kernel
  have hspares : finished.host.SparesUntilRead ⟨1, 49152, 2, 80⟩
      (finished.stack.callsOf ([.recv 1 10 0 []] ++ [.recv 1 10 0 []])) :=
    .inr ⟨spares_recv _ _ _ _, .inr ⟨spares_recv _ _ _ _, trivial⟩⟩
  obtain ⟨calls, t', ces, -, ht', -, hfin, hall, -⟩ := zero_is_end_of_stream [.recv 1 10 0 []]
    (reachable_connected.call _) ht ⟨by rw [hst]; rfl, hclose⟩ hspares hsock rfl (by decide) hzero
  exact ⟨hzero, calls, t', ht', hfin, hall⟩

/-- A reset during `recv` makes it return 0 without a FIN.  A reset behind two bytes that
were taken in and acknowledged makes it return 0 in their place. -/
theorem exists_zero_after_reset :
    ∃ (r r' : Recorded) (p : Pump) (t t' : Track),
      r.Reachable ∧ r.host.tracks ⟨1, 49152, 2, 80⟩ = some t ∧ t.hist.fin = false ∧
      (r.stack.recv 1 10 0 [p]).2.2 = some (0, []) ∧
      r'.Reachable ∧ r'.host.tracks ⟨1, 49152, 2, 80⟩ = some t' ∧ t'.hist.fin = false ∧
      t'.received = [1, 2] ∧ t'.hist.returned = [] ∧
      ((r'.step (.pump p)).stack.recv 1 10 0 []).2.2 = some (0, []) := by
  let data : Packet := ⟨2, 1, ⟨80, 49152, 501, 1001, 80, tcpAck, 1000, 0, 0⟩, [1, 2]⟩
  let rst : Packet := ⟨2, 1, ⟨80, 49152, 503, 1001, 80, tcpRst ||| tcpAck, 1000, 0, 0⟩, []⟩
  let r' := connected.step (.pump ⟨some data.bytes, 0, 0, 0, 0⟩)
  have hfacts : (connected.host.tracks ⟨1, 49152, 2, 80⟩).map (fun t ↦ t.hist.fin) =
      some false := by decide +kernel
  have hfacts' : (r'.host.tracks ⟨1, 49152, 2, 80⟩).map
      (fun t ↦ (t.hist.fin, t.received, t.hist.returned)) = some (false, [1, 2], []) := by
    decide +kernel
  obtain ⟨t, ht, hfin⟩ := Option.map_eq_some_iff.mp hfacts
  obtain ⟨t', ht', hval⟩ := Option.map_eq_some_iff.mp hfacts'
  simp only [Prod.mk.injEq] at hval
  obtain ⟨hfin', hreceived, hreturned⟩ := hval
  exact ⟨connected, r', ⟨some rst.bytes, 0, 0, 0, 0⟩, t, t', reachable_connected, ht, hfin,
    by decide +kernel, reachable_connected.call _, ht', hfin', hreceived, hreturned,
    by decide +kernel⟩

end Recorded

end MiniTcp
