import MiniTcp.Tcp.Completion

/-!
# A segment nobody knows

One end of a connection is gone while the other end is still there.  Whatever the
remaining end sends, or has ever sent, is answered with a reset when it arrives, and the
reset removes the remaining end whenever it arrives: two packets clear up a connection
that is half open, and a connection that was never accepted.
-/

namespace MiniTcp

namespace Network

variable {ι : Type} [DecidableEq ι] {owner : UInt32 → ι} {n : Network ι} {k : ConnectionKey}
  {t : Track}

theorem Reached.host (hn : n.Reached owner) (i : ι) : (n.host i).Reachable {} := by
  refine Run.Reaches.invariant (P := fun n : Network ι ↦ (n.host i).Reachable {}) ?_ ?_ hn
  · rintro n rfl
    exact Host.reachable_new {}
  · rintro n ⟨j, e⟩ - - hi
    by_cases hj : i = j
    · subst hj
      rw [host_act_self]
      exact hi.call e
    · rw [host_act_of_ne n e hj]
      exact hi

theorem Reached.length_data_le (hn : n.Reached owner) : ∀ m ∈ n.sent, m.data.length ≤ mss := by
  refine Run.Reaches.invariant (P := fun n : Network ι ↦ ∀ m ∈ n.sent, m.data.length ≤ mss) ?_ ?_ hn
  · rintro n rfl m hm
    cases hm
  · rintro n ⟨i, e⟩ hn - hsent m hm
    rcases List.mem_append.mp hm with hm | hm
    · exact hsent m hm
    · rcases Host.mem_out hm with ⟨k, t, hopen, hm⟩ | ⟨k, t, ht, -, hm⟩ | hrst
      · have hreach : t.Reachable {} := .start (TableEvent.opened_spec hopen)
        exact (hreach.wire.2 m hm).2
      · have hreach : t.Reachable {} := (Reached.host hn i).track ht
        exact ((hreach.after (e.on k)).wire.2 m hm).2
      · rw [hrst.2.2]
        exact Nat.zero_le _

end Network

namespace Host

variable {h : Host} {k' : ConnectionKey} {t : Track} {ipHdr : IpHeader} {payload data : Bytes}
  {seg : TcpHeader}

theorem segment_of_unknown (now : Instant) (iss : UInt32)
    (hseg : TcpTable.acceptedSegment ipHdr payload = some (seg, data))
    (hnone : h.tracks (TcpTable.segmentKey ipHdr seg) = none) (hrst : ¬ hasFlag seg.flags tcpRst)
    (hopens : ¬ (hasFlag seg.flags tcpSyn ∧ ¬ hasFlag seg.flags tcpAck ∧
      (ipHdr.dstAddr, seg.dstPort) ∈ h.table.listeners)) :
    h.out (.segment now iss ipHdr payload) =
        [TcpTable.sendRstForUnknown ipHdr seg data.length] ∧
      (h.step (.segment now iss ipHdr payload)).table = h.table := by
  have hlook : h.table.lookup (TcpTable.segmentKey ipHdr seg) = none := by
    rw [h.agree, hnone]
    rfl
  have hstep : h.table.step (.segment now iss ipHdr payload) =
      (h.table, [TcpTable.sendRstForUnknown ipHdr seg data.length]) := by
    simp only [TcpTable.step, TcpTable.handleSegment, hseg, TcpTable.demux, hlook, if_neg hopens,
      if_neg hrst]
  exact ⟨congrArg Prod.snd hstep, congrArg Prod.fst hstep⟩

theorem Reachable.segment_of_reset (hh : h.Reachable {}) (now : Instant) (iss : UInt32)
    (hseg : TcpTable.acceptedSegment ipHdr payload = some (seg, data))
    (ht : h.tracks (TcpTable.segmentKey ipHdr seg) = some t) (hrst : hasFlag seg.flags tcpRst) :
    h.out (.segment now iss ipHdr payload) = [] ∧
      (h.step (.segment now iss ipHdr payload)).tracks (TcpTable.segmentKey ipHdr seg) = none := by
  have hended : h.table.Ended (TcpTable.segmentKey ipHdr seg)
      (h.table.demux now iss ipHdr seg data) :=
    TcpTable.demux_rst_of_lookup hrst (lookup_of_track ht) (hh.track ht).handshake.1
  have hstep : h.table.step (.segment now iss ipHdr payload) =
      h.table.demux now iss ipHdr seg data := by
    simp only [TcpTable.step, TcpTable.handleSegment, hseg]
  constructor
  · rw [out, hstep]
    exact hended.silent
  · have hgone : (h.step (.segment now iss ipHdr payload)).table.lookup
        (TcpTable.segmentKey ipHdr seg) = none := by
      change (h.table.step _).1.lookup _ = none
      rw [hstep]
      exact hended.gone
    rw [agree] at hgone
    exact Option.map_eq_none_iff.mp hgone

/-- A segment leaves every other connection alone, unless it is Closed. -/
theorem tracks_of_segment (now : Instant) (iss : UInt32)
    (hseg : TcpTable.acceptedSegment ipHdr payload = some (seg, data))
    (hk : TcpTable.segmentKey ipHdr seg ≠ k') (ht : h.tracks k' = some t)
    (hopen : t.conn.state ≠ .closed) :
    (h.step (.segment now iss ipHdr payload)).tracks k' = some t := by
  have hon : (TableEvent.segment now iss ipHdr payload).on k' = none := by
    rw [TableEvent.on, hseg]
    exact if_neg hk
  have hopened : (TableEvent.segment now iss ipHdr payload).opened h.table k' = none := by
    rw [TableEvent.opened, hseg]
    exact if_neg fun hopens ↦ hk hopens.1
  have hafter := tracks_of_open ht hopened
  rw [hon] at hafter
  exact hafter hopen

end Host

namespace Network

variable {ι : Type} [DecidableEq ι] {owner : UInt32 → ι} {n : Network ι} {k : ConnectionKey}
  {t : Track} {m : Emission} {idx : ℕ}

/-- The first packet: the host that does not know the connection answers with a reset. -/
theorem Reached.answers (hn : n.Reached owner) (hdiff : owner k.localAddr ≠ owner k.remoteAddr)
    (hgone : (n.host (owner k.remoteAddr)).tracks k.mirror = none)
    (hm : n.sent[idx]? = some m) (hsource : m.source = k) (hrst : ¬ hasFlag m.flags tcpRst)
    (hopens : hasFlag m.flags tcpSyn → ¬ hasFlag m.flags tcpAck →
      (k.remoteAddr, k.remotePort) ∉ (n.host (owner k.remoteAddr)).table.listeners)
    (now : Instant) (iss : UInt32) :
    ∃ rst, rst.IsReset ∧ rst.source = k.mirror ∧
      (n.deliver owner now iss idx).sent = n.sent ++ [rst] ∧
      (n.deliver owner now iss idx).host (owner k.localAddr) = n.host (owner k.localAddr) ∧
      ((n.deliver owner now iss idx).host (owner k.remoteAddr)).table =
        (n.host (owner k.remoteAddr)).table := by
  obtain ⟨ipHdr, payload, hdeliver, -, hacc, hkey⟩ :=
    deliver_eq owner n now iss hm (hn.length_data_le m (List.mem_of_getElem? hm))
  rw [hsource] at hdeliver hkey
  have hport : (ipHdr.dstAddr, m.parsed.dstPort) = (k.remoteAddr, k.remotePort) :=
    congrArg (fun key : ConnectionKey ↦ (key.localAddr, key.localPort)) hkey
  have hnot : ¬ (hasFlag m.parsed.flags tcpSyn ∧ ¬ hasFlag m.parsed.flags tcpAck ∧
      (ipHdr.dstAddr, m.parsed.dstPort) ∈ (n.host (owner k.remoteAddr)).table.listeners) := by
    rintro ⟨hsyn, hack, hlisten⟩
    exact hopens hsyn hack (hport ▸ hlisten)
  obtain ⟨hout, htable⟩ := Host.segment_of_unknown now iss hacc (hkey ▸ hgone) hrst hnot
  refine ⟨_, TcpTable.isReset_sendRstForUnknown ipHdr m.parsed m.data.length, hkey, ?_⟩
  rw [hdeliver]
  refine ⟨?_, ?_, ?_⟩
  · change n.sent ++ _ = _
    rw [hout]
  · exact host_act_of_ne n _ hdiff
  · rw [host_act_self]
    exact htable

/-- The second packet: the reset removes the end that is left. -/
theorem Reached.removes {rst : Emission} (hn : n.Reached owner)
    (ht : (n.host (owner k.localAddr)).tracks k = some t) (hm : n.sent[idx]? = some rst)
    (hrst : rst.IsReset) (hsource : rst.source = k.mirror)
    (hdiff : owner k.localAddr ≠ owner k.remoteAddr) (now : Instant) (iss : UInt32) :
    (n.deliver owner now iss idx).sent = n.sent ∧
      ((n.deliver owner now iss idx).host (owner k.localAddr)).tracks k = none ∧
      (n.deliver owner now iss idx).host (owner k.remoteAddr) = n.host (owner k.remoteAddr) ∧
      ∀ k' t', k' ≠ k → (n.host (owner k.localAddr)).tracks k' = some t' →
        t'.conn.state ≠ .closed →
        ((n.deliver owner now iss idx).host (owner k.localAddr)).tracks k' = some t' := by
  obtain ⟨ipHdr, payload, hdeliver, -, hacc, hkey⟩ :=
    deliver_eq owner n now iss hm (hn.length_data_le rst (List.mem_of_getElem? hm))
  rw [hsource] at hdeliver hkey
  change n.deliver owner now iss idx =
    n.act (owner k.localAddr) (.segment now iss ipHdr payload) at hdeliver
  rw [ConnectionKey.mirror_mirror] at hkey
  subst hkey
  obtain ⟨hout, hnone⟩ := (hn.host _).segment_of_reset now iss hacc ht hrst.1
  rw [hdeliver]
  refine ⟨?_, ?_, ?_, fun k' t' hk' ht' hopen ↦ ?_⟩
  · change n.sent ++ _ = _
    rw [hout, List.append_nil]
  · rw [host_act_self]
    exact hnone
  · exact host_act_of_ne n _ (Ne.symm hdiff)
  · rw [host_act_self]
    exact Host.tracks_of_segment now iss hacc (Ne.symm hk') ht' hopen

/-- The far end of `k`, on another host, does not exist.  Any packet that was ever sent
under `k`, unless it is a reset or opens a new connection, is answered with one reset when
it arrives, which changes no table.  In whatever network this reset arrives later on, it
removes the connection it finds under `k`, nothing is sent, and no other open connection
is touched. -/
theorem orphan_reset (hn : n.Reached owner) (hdiff : owner k.localAddr ≠ owner k.remoteAddr)
    (hgone : (n.host (owner k.remoteAddr)).tracks k.mirror = none)
    (hm : n.sent[idx]? = some m) (hsource : m.source = k) (hrst : ¬ hasFlag m.flags tcpRst)
    (hopens : hasFlag m.flags tcpSyn → ¬ hasFlag m.flags tcpAck →
      (k.remoteAddr, k.remotePort) ∉ (n.host (owner k.remoteAddr)).table.listeners)
    (now : Instant) (iss : UInt32) :
    ∃ rst n₁, n₁ = n.deliver owner now iss idx ∧ rst.IsReset ∧ rst.source = k.mirror ∧
      n₁.sent = n.sent ++ [rst] ∧
      n₁.host (owner k.localAddr) = n.host (owner k.localAddr) ∧
      (n₁.host (owner k.remoteAddr)).table = (n.host (owner k.remoteAddr)).table ∧
      ∀ (n₂ : Network ι) t now' iss', n₂.Reached owner → n₁.sent <+: n₂.sent →
        (n₂.host (owner k.localAddr)).tracks k = some t →
        ∃ n₃, n₃ = n₂.deliver owner now' iss' n.sent.length ∧ n₃.sent = n₂.sent ∧
          (n₃.host (owner k.localAddr)).tracks k = none ∧
          n₃.host (owner k.remoteAddr) = n₂.host (owner k.remoteAddr) ∧
          ∀ k' t', k' ≠ k → (n₂.host (owner k.localAddr)).tracks k' = some t' →
            t'.conn.state ≠ .closed → (n₃.host (owner k.localAddr)).tracks k' = some t' := by
  obtain ⟨rst, hreset, hsource', hsent, hlocal, hremote⟩ :=
    hn.answers hdiff hgone hm hsource hrst hopens now iss
  refine ⟨rst, _, rfl, hreset, hsource', hsent, hlocal, hremote, ?_⟩
  intro n₂ t now' iss' hn₂ hlater ht
  have hidx : n₂.sent[n.sent.length]? = some rst := by
    obtain ⟨more, hmore⟩ := hlater
    rw [← hmore, hsent, List.append_assoc, List.getElem?_append_right (Nat.le_refl _),
      Nat.sub_self]
    rfl
  exact ⟨_, rfl, hn₂.removes ht hidx hreset hsource' hdiff now' iss'⟩

/-- Both ends are established; host 2 sends a byte, hears nothing and gives up.  The
next bytes from host 1 are answered with a reset; host 1 sends once more, and then the
reset removes its end, too. -/
theorem orphan_reset_given_up :
    ∃ (owner : UInt32 → Bool) (n n' : Network Bool) (k : ConnectionKey), n.Reached owner ∧
      (n.party k).conn.state = .established ∧ n'.sent.length = n.sent.length + 2 ∧
      (n'.host (owner k.localAddr)).tracks k = none := by
  let owner (addr : UInt32) : Bool := addr == 2
  let k : ConnectionKey := ⟨1, 49152, 2, 80⟩
  let n₁ : Network Bool := (((start.act true (.listen 2 80 false)).act false
    (.connect 0 1000 1 2 80)).deliver owner 0 5000 0).deliver owner 0 0 1 |>.deliver owner 0 0 2
  let n₂ := (List.range 7).foldl (fun n i ↦ n.act true (.tick ((i + 1) * maxRto)))
    (n₁.act true (.send 0 k.mirror [7]))
  let n := n₂.act false (.send 0 k [1, 2, 3])
  have h₁ : n₁.Reached owner :=
    ((((reached_start owner).act true (.listen 2 80 false) trivial).act false
      (.connect 0 1000 1 2 80) rfl).deliver 0 5000 0).deliver 0 0 1 |>.deliver 0 0 2
  have hn : n.Reached owner := by
    refine Reached.act ?_ false _ trivial
    iterate 7 refine Reached.act ?_ true _ trivial
    exact h₁.act true _ trivial
  have hfacts : (n.sent[10]?).map (fun m ↦ (m.source, hasFlag m.flags tcpRst,
      hasFlag m.flags tcpSyn)) = some (k, false, false) := by
    decide +kernel
  obtain ⟨m, hm, hval⟩ := Option.map_eq_some_iff.mp hfacts
  simp only [Prod.mk.injEq] at hval
  obtain ⟨hsource, hrst, hsyn⟩ := hval
  have hgone : (n.host (owner k.remoteAddr)).tracks k.mirror = none :=
    Option.isNone_iff_eq_none.mp (by decide +kernel)
  obtain ⟨rst, n₃, hn₃, -, -, -, -, -, hreset⟩ := orphan_reset (k := k) hn (by decide)
    hgone hm hsource (by rw [hrst]; decide) (fun hflag ↦ by rw [hsyn] at hflag; cases hflag) 0 0
  -- the reset waits on the wire while host 1 sends another byte
  obtain ⟨t, ht⟩ : ∃ t, ((n₃.act false (.send 0 k [4])).host (owner k.localAddr)).tracks k =
      some t := by
    rw [hn₃]
    exact Option.isSome_iff_exists.mp (by decide +kernel)
  have hreach : (n₃.act false (.send 0 k [4])).Reached owner := by
    rw [hn₃]
    exact (hn.deliver 0 0 10).act false _ trivial
  obtain ⟨n₅, -, hsent, hnone, -⟩ := hreset _ t 0 0 hreach (List.prefix_append _ _) ht
  refine ⟨owner, n, n₅, k, hn, by decide +kernel, ?_, hnone⟩
  rw [hsent, hn₃]
  decide +kernel

end Network

end MiniTcp
