import MiniTcp.Tcp.Conversation

/-!
# Any number of hosts

Every address belongs to one host.  A host may listen, connect to any other host or
to itself, and have any number of connections.  The network keeps every packet ever
sent and hands it, as the bytes that were written, to the host that owns its
destination: once, several times, late, in any order or never.

The two connections under a key and its mirror image are a conversation, as long as
there was at most one connection under either key: nothing that the other
connections of any host send or receive is seen by it.
-/

namespace MiniTcp

namespace ConnectionKey

theorem mirror_mirror (k : ConnectionKey) : k.mirror.mirror = k := rfl

def side (k : ConnectionKey) : Side → ConnectionKey
  | .a => k
  | .b => k.mirror

theorem side_other (k : ConnectionKey) (x : Side) : k.side x.other = (k.side x).mirror := by
  cases x <;> rfl

end ConnectionKey

/-- A call that the host `i` can make when `sent` is all that was ever sent. -/
def TableEvent.Arrives {ι : Type} (owner : UInt32 → ι) (sent : List Emission) (i : ι) :
    TableEvent → Prop
  | .segment _ _ ipHdr payload => ∃ m ∈ sent, parseIpHeader m.packet.bytes = some ipHdr ∧
      payload = m.packet.bytes.drop (ipHdr.ihl.toNat * 4) ∧ owner ipHdr.dstAddr = i
  | .connect _ _ localAddr _ _ => owner localAddr = i
  | _ => True

/-- What becomes of the connection under `k`, also when it is removed. -/
def Host.lived (h : Host) (e : TableEvent) (k : ConnectionKey) : Option Track :=
  (e.opened h.table k).or ((h.tracks k).map fun t ↦ t.after (e.on k))

structure Network (ι : Type) where
  host : ι → Host
  /-- everything that was ever sent -/
  sent : List Emission
  /-- the last connection under a key, at the end of its life if it was removed -/
  life : ConnectionKey → Option Track
  /-- how many connections there were under a key -/
  born : ConnectionKey → ℕ

namespace Network

variable {ι : Type}

def start : Network ι where
  host _ := .new
  sent := []
  life _ := none
  born _ := 0

section

variable [DecidableEq ι]

def act (n : Network ι) (i : ι) (e : TableEvent) : Network ι where
  host := Function.update n.host i ((n.host i).step e)
  sent := n.sent ++ (n.host i).out e
  life k := ((n.host i).lived e k).or (n.life k)
  born k := n.born k + (e.opened (n.host i).table k).isSome.toNat

theorem host_act_self (n : Network ι) (i : ι) (e : TableEvent) :
    (n.act i e).host i = (n.host i).step e := Function.update_self ..

theorem host_act_of_ne (n : Network ι) (e : TableEvent) {i j : ι} (h : j ≠ i) :
    (n.act i e).host j = n.host j := Function.update_of_ne h ..

/-- Reached by any interleaving of the calls of all hosts. -/
def Reached (owner : UInt32 → ι) : Network ι → Prop :=
  Run.Reaches (· = start) (fun n (p : ι × TableEvent) ↦ p.2.Arrives owner n.sent p.1)
    fun n p ↦ n.act p.1 p.2

theorem reached_start (owner : UInt32 → ι) : start.Reached owner := .start rfl

theorem Reached.act {owner : UInt32 → ι} {n : Network ι} (h : n.Reached owner) (i : ι)
    (e : TableEvent) (he : e.Arrives owner n.sent i) : (n.act i e).Reached owner :=
  Run.Reaches.tail (i, e) h he

/-- The arrival of the packet with the number `idx`. -/
def deliver (owner : UInt32 → ι) (n : Network ι) (now : Instant) (iss : UInt32) (idx : ℕ) :
    Network ι :=
  match n.sent[idx]? with
  | none => n
  | some m =>
      match parseIpHeader m.packet.bytes with
      | none => n
      | some ipHdr =>
          n.act (owner ipHdr.dstAddr)
            (.segment now iss ipHdr (m.packet.bytes.drop (ipHdr.ihl.toNat * 4)))

theorem Reached.deliver {owner : UInt32 → ι} {n : Network ι} (h : n.Reached owner)
    (now : Instant) (iss : UInt32) (idx : ℕ) : (n.deliver owner now iss idx).Reached owner := by
  unfold Network.deliver
  split
  · exact h
  · next m hm =>
      split
      · exact h
      · next ipHdr hparse =>
          exact h.act _ _ ⟨m, List.mem_of_getElem? hm, hparse, rfl, rfl⟩

end

def party (n : Network ι) (k : ConnectionKey) : Track := (n.life k).getD .unborn

end Network

/-! ## What a host hears -/

namespace TableEvent

variable {ι : Type} {owner : UInt32 → ι} {sent : List Emission} {i : ι} {e : TableEvent}
  {k : ConnectionKey}

theorem Arrives.opened {table : TcpTable} {t : Track} (h : e.Arrives owner sent i)
    (hopen : e.opened table k = some t) :
    owner k.localAddr = i ∧ ((∃ now iss, t = .active now iss k) ∨
      ∃ m ∈ sent, ∃ now iss, m.source = k.mirror ∧ hasFlag m.flags tcpSyn ∧
        t = .passive now iss k m.parsed) := by
  cases opened_cases hopen with
  | segment hacc hkey hnone hsyn hack =>
      obtain ⟨m, hm, hparse, rfl, howner⟩ := h
      obtain ⟨rfl, -, hdest⟩ := TcpTable.acceptedSegment_bytes hparse hacc
      have hsource : m.source = k.mirror := by rw [← hkey, hdest, ConnectionKey.mirror_mirror]
      exact ⟨by rw [← hkey]; exact howner, .inr ⟨m, hm, _, _, hsource, hsyn, rfl⟩⟩
  | connect hkey =>
      subst hkey
      exact ⟨h, .inl ⟨_, _, rfl⟩⟩

/-- A segment for `k` was sent under the mirror image of `k`. -/
theorem Arrives.on (h : e.Arrives owner sent i) {ce : ConnEvent} (hon : e.on k = some ce) :
    ∃ heard, (∀ m ∈ heard, m ∈ sent ∧ m.source = k.mirror) ∧ ce.Heard heard := by
  cases on_cases hon with
  | segment hacc hkey =>
      obtain ⟨m, hm, hparse, rfl, -⟩ := h
      obtain ⟨hseg, hdata, hdest⟩ := TcpTable.acceptedSegment_bytes hparse hacc
      refine ⟨[m], fun m' hm' ↦ ?_, m, List.mem_singleton_self m, hseg, hdata⟩
      obtain rfl := List.mem_singleton.mp hm'
      exact ⟨hm, by rw [← hkey, hdest, ConnectionKey.mirror_mirror]⟩
  | tick | send | recv | close | setRecvCap | setSendCap => exact ⟨[], nofun, trivial⟩

end TableEvent

namespace Track

theorem key_opened {table : TcpTable} {e : TableEvent} {k : ConnectionKey} {t : Track}
    (h : e.opened table k = some t) : t.conn.key = k := by
  rcases TableEvent.opened_key h with ⟨now, iss, rfl⟩ | ⟨now, iss, seg, rfl⟩ <;> rfl

theorem Reachable.after {t : Track} (h : t.Reachable {}) (e : Option ConnEvent) :
    (t.after e).Reachable {} := by
  cases e with
  | none => exact h
  | some ce => exact h.step (Guard.admits_empty _ _)

theorem key_after (t : Track) (e : Option ConnEvent) : (t.after e).conn.key = t.conn.key := by
  cases e with
  | none => rfl
  | some ce => exact t.key_step ce

theorem out_after (t : Track) (e : Option ConnEvent) : t.hist.out <+: (t.after e).hist.out := by
  cases e with
  | none => exact List.prefix_refl _
  | some ce => exact List.prefix_append _ _

end Track

namespace Host

variable {h : Host} {e : TableEvent} {k : ConnectionKey} {t : Track}

theorem lived_of_opened (hopen : e.opened h.table k = some t) : h.lived e k = some t := by
  rw [lived, hopen, Option.some_or]

theorem lived_of_track (hopen : e.opened h.table k = none) (ht : h.tracks k = some t) :
    h.lived e k = some (t.after (e.on k)) := by
  rw [lived, hopen, ht]
  rfl

theorem lived_of_none (hopen : e.opened h.table k = none) (ht : h.tracks k = none) :
    h.lived e k = none := by
  rw [lived, hopen, ht]
  rfl

theorem lived_of_step (ht : (h.step e).tracks k = some t) : h.lived e k = some t := by
  rcases tracks_step ht with hopen | ⟨hnone, t₀, ht₀, rfl⟩
  · exact lived_of_opened hopen
  · exact lived_of_track hnone ht₀

end Host

namespace Network

variable {ι : Type} {owner : UInt32 → ι} {n : Network ι} {i : ι} {e : TableEvent}
  {k : ConnectionKey} {m : Emission} {t : Track}

theorem party_of_life (h : n.life k = some t) : n.party k = t := by
  simp [party, h]

/-- The connections of a host carry addresses of that host, and everything that was
sent under a key with a single connection was sent by it, resets aside. -/
structure Kept (owner : UInt32 → ι) (n : Network ι) : Prop where
  place : ∀ i k t, (n.host i).tracks k = some t → owner k.localAddr = i ∧ n.life k = some t
  live : ∀ k t, n.life k = some t → t.Reachable {} ∧ t.conn.key = k
  unborn : ∀ k, n.born k = 0 → n.life k = none
  sent : ∀ m ∈ n.sent, n.born m.source ≤ 1 → m.IsReset ∨ m ∈ (n.party m.source).hist.out

theorem kept_start : Kept owner start :=
  ⟨fun _ _ _ ht ↦ (Option.some_ne_none _ ht.symm).elim,
    fun _ _ ht ↦ (Option.some_ne_none _ ht.symm).elim, fun _ _ ↦ rfl,
    fun _ hm ↦ (List.not_mem_nil hm).elim⟩

section

variable [DecidableEq ι]

/-- A call leaves what is recorded under a key, starts a new record, or is one event of it. -/
theorem Kept.life_act (h : Kept owner n) (i : ι) (e : TableEvent) (k : ConnectionKey) :
    ((n.act i e).life k = n.life k ∧ e.opened (n.host i).table k = none) ∨
      (∃ t, e.opened (n.host i).table k = some t ∧ (n.act i e).life k = some t) ∨
      ∃ t, n.life k = some t ∧ (n.host i).tracks k = some t ∧
        e.opened (n.host i).table k = none ∧ (n.act i e).life k = some (t.after (e.on k)) := by
  change ((n.host i).lived e k).or (n.life k) = _ ∧ _ ∨
    (∃ t, _ ∧ ((n.host i).lived e k).or (n.life k) = _) ∨
    ∃ t, _ ∧ _ ∧ _ ∧ ((n.host i).lived e k).or (n.life k) = _
  cases hopen : e.opened (n.host i).table k with
  | some t => exact .inr (.inl ⟨t, rfl, by rw [Host.lived_of_opened hopen, Option.some_or]⟩)
  | none =>
      cases ht : (n.host i).tracks k with
      | none => exact .inl ⟨by rw [Host.lived_of_none hopen ht, Option.none_or], rfl⟩
      | some t =>
          exact .inr (.inr ⟨t, (h.place i k t ht).2, rfl, rfl,
            by rw [Host.lived_of_track hopen ht, Option.some_or]⟩)

/-- The calls of one host do not touch what is recorded under the keys of another. -/
theorem Kept.life_act_of_ne (h : Kept owner n) (he : e.Arrives owner n.sent i) {k : ConnectionKey}
    (hk : owner k.localAddr ≠ i) : (n.act i e).life k = n.life k := by
  rcases h.life_act i e k with ⟨hsame, -⟩ | ⟨t, hopen, -⟩ | ⟨t, -, ht, -⟩
  · exact hsame
  · exact absurd (he.opened hopen).1 hk
  · exact absurd (h.place i k t ht).1 hk

theorem Kept.mem_out (h : Kept owner n) (hm : m ∈ (n.host i).out e) :
    m.IsReset ∨ m ∈ ((n.act i e).party m.source).hist.out := by
  rcases Host.mem_out hm with ⟨k, t, hopen, hm⟩ | ⟨k, t, ht, hnone, hm⟩ | hrst
  · have hreach : t.Reachable {} := .start (TableEvent.opened_spec hopen)
    have hsource : m.source = k := (hreach.source m hm).trans (Track.key_opened hopen)
    have hlife : (n.act i e).life k = some t := by
      change ((n.host i).lived e k).or (n.life k) = _
      rw [Host.lived_of_opened hopen, Option.some_or]
    rw [hsource, party_of_life hlife]
    exact .inr hm
  · obtain ⟨hreach, hkey⟩ := h.live k t (h.place i k t ht).2
    have hsource : m.source = k :=
      ((hreach.after (e.on k)).source m hm).trans ((t.key_after _).trans hkey)
    have hlife : (n.act i e).life k = some (t.after (e.on k)) := by
      change ((n.host i).lived e k).or (n.life k) = _
      rw [Host.lived_of_track hnone ht, Option.some_or]
    rw [hsource, party_of_life hlife]
    exact .inr hm
  · exact .inl hrst

theorem Kept.act (h : Kept owner n) (he : e.Arrives owner n.sent i) : Kept owner (n.act i e) where
  place j k t ht := by
    by_cases hj : j = i
    · subst hj
      rw [host_act_self] at ht
      have hlife : (n.act j e).life k = some t := by
        change ((n.host j).lived e k).or (n.life k) = _
        rw [Host.lived_of_step ht, Option.some_or]
      refine ⟨?_, hlife⟩
      rcases Host.tracks_step ht with hopen | ⟨-, t₀, ht₀, -⟩
      · exact (he.opened hopen).1
      · exact (h.place j k t₀ ht₀).1
    · rw [host_act_of_ne n e hj] at ht
      obtain ⟨howner, hlife⟩ := h.place j k t ht
      have hne : owner k.localAddr ≠ i := by
        rw [howner]
        exact hj
      exact ⟨howner, (h.life_act_of_ne he hne).trans hlife⟩
  live k t ht := by
    rcases h.life_act i e k with ⟨hsame, -⟩ | ⟨t', hopen, ht'⟩ | ⟨t', hlife, -, -, ht'⟩
    · exact h.live k t (hsame.symm.trans ht)
    · obtain rfl := Option.some.inj (ht'.symm.trans ht)
      exact ⟨.start (TableEvent.opened_spec hopen), Track.key_opened hopen⟩
    · obtain rfl := Option.some.inj (ht'.symm.trans ht)
      obtain ⟨hreach, hkey⟩ := h.live k t' hlife
      exact ⟨hreach.after _, (t'.key_after _).trans hkey⟩
  unborn k hk := by
    have hsum : n.born k + (e.opened (n.host i).table k).isSome.toNat = 0 := hk
    have hzero : n.born k = 0 := by omega
    rcases h.life_act i e k with ⟨hsame, -⟩ | ⟨t, hopen, -⟩ | ⟨t, hlife, -⟩
    · exact hsame.trans (h.unborn k hzero)
    · simp [hopen] at hsum
    · rw [h.unborn k hzero] at hlife
      cases hlife
  sent m hm hborn := by
    have hsum : n.born m.source + (e.opened (n.host i).table m.source).isSome.toNat ≤ 1 := hborn
    rcases List.mem_append.mp hm with hm | hm
    · rcases h.sent m hm (by omega) with hrst | hout
      · exact .inl hrst
      · right
        rcases h.life_act i e m.source with ⟨hsame, -⟩ | ⟨t, hopen, -⟩ | ⟨t, hlife, -, -, ht'⟩
        · rwa [party, hsame]
        · -- an older connection has sent `m`, so this is the second one
          rw [hopen] at hsum
          have hzero : n.born m.source = 0 := by simpa using hsum
          rw [party, h.unborn _ hzero] at hout
          cases hout
        · rw [party_of_life hlife] at hout
          rw [party_of_life ht']
          exact (t.out_after _).subset hout
    · exact h.mem_out hm

theorem Reached.kept (h : n.Reached owner) : Kept owner n := by
  refine Run.Reaches.invariant (P := Kept owner) ?_ ?_ h
  · rintro n rfl
    exact kept_start
  · rintro n ⟨i, e⟩ _ he hn
    exact hn.act he

end

/-! ## Every link is a conversation -/

def link (n : Network ι) (k : ConnectionKey) : Conversation where
  track x := n.life (k.side x)

theorem party_link (n : Network ι) (k : ConnectionKey) (x : Side) :
    (n.link k).party x = n.party (k.side x) := rfl

theorem link_eq_of_life {c : Conversation} (ha : n.life (k.side .a) = c.track .a)
    (hb : n.life (k.side .b) = c.track .b) : n.link k = c := by
  obtain ⟨track⟩ := c
  rw [link, Conversation.mk.injEq]
  funext x
  cases x with
  | a => exact ha
  | b => exact hb

theorem Kept.hears (h : Kept owner n) {x : Side} {ce : ConnEvent}
    (hborn : n.born (k.side x.other) ≤ 1) (he : e.Arrives owner n.sent i)
    (hon : e.on (k.side x) = some ce) : (n.link k).Hears x ce := by
  obtain ⟨heard, hsent, hce⟩ := he.on hon
  refine ⟨heard, fun m hm ↦ ?_, hce⟩
  obtain ⟨hm, hsource⟩ := hsent m hm
  rw [← ConnectionKey.side_other] at hsource
  have hout := h.sent m hm (by rwa [hsource])
  rwa [hsource] at hout

section

variable [DecidableEq ι]

theorem Kept.link_moves (h : Kept owner n) (he : e.Arrives owner n.sent i) {x : Side}
    (hx : (n.act i e).born (k.side x) ≤ 1) (hy : (n.act i e).born (k.side x.other) ≤ 1) :
    (n.act i e).life (k.side x) = n.life (k.side x) ∨
      ∃ t, (n.act i e).life (k.side x) = some t ∧ (n.link k).Moves x t := by
  have hsum : n.born (k.side x) + (e.opened (n.host i).table (k.side x)).isSome.toNat ≤ 1 := hx
  have hle : n.born (k.side x.other) ≤ 1 := (Nat.le_add_right _ _).trans hy
  rcases h.life_act i e (k.side x) with ⟨hsame, -⟩ | ⟨t, hopen, ht⟩ | ⟨t, hlife, -, -, ht⟩
  · exact .inl hsame
  · refine .inr ⟨t, ht, ?_⟩
    rw [hopen] at hsum
    have hnone : n.life (k.side x) = none := h.unborn _ (by simpa using hsum)
    rcases (he.opened hopen).2 with ⟨now, iss, rfl⟩ | ⟨m, hm, now, iss, hsource, hsyn, rfl⟩
    · exact .connect now iss _ hnone
    · rw [← ConnectionKey.side_other] at hsource
      have hout := (h.sent m hm (by rwa [hsource])).resolve_left fun hr ↦ hr.2.1 hsyn
      rw [hsource] at hout
      exact .answer now iss _ hnone hout hsyn
  · cases hon : e.on (k.side x) with
    | none =>
        rw [hon] at ht
        exact .inl (ht.trans hlife.symm)
    | some ce =>
        rw [hon] at ht
        exact .inr ⟨t.step ce, ht, .event hlife (h.hears hle he hon)⟩

/-- One call moves each of the two ends at most once: a tick of a host that is
connected to itself moves both. -/
theorem Kept.link_act (h : Kept owner n) (he : e.Arrives owner n.sent i)
    (ha : (n.act i e).born k ≤ 1) (hb : (n.act i e).born k.mirror ≤ 1)
    (hreach : (n.link k).Reached) : ((n.act i e).link k).Reached := by
  have hmoveA := h.link_moves he (x := .a) ha hb
  have hmoveB := h.link_moves he (x := .b) hb ha
  rcases hmoveA with hsameA | ⟨t, ht, hmt⟩
  · rcases hmoveB with hsameB | ⟨u, hu, hmu⟩
    · rw [link_eq_of_life (c := n.link k) hsameA hsameB]
      exact hreach
    · rw [link_eq_of_life (c := (n.link k).move (.b, u)) hsameA hu]
      exact hreach.move hmu
  · have hreachA := hreach.move hmt
    rcases hmoveB with hsameB | ⟨u, hu, hmu⟩
    · rw [link_eq_of_life (c := (n.link k).move (.a, t)) ht hsameB]
      exact hreachA
    · rw [link_eq_of_life (c := ((n.link k).move (.a, t)).move (.b, u)) ht hu]
      exact hreachA.move (hmu.after hmt)

theorem Reached.link (h : n.Reached owner) (k : ConnectionKey) (ha : n.born k ≤ 1)
    (hb : n.born k.mirror ≤ 1) : (n.link k).Reached := by
  refine (Run.Reaches.invariant (P := fun n : Network ι ↦ n.born k ≤ 1 → n.born k.mirror ≤ 1 →
    (n.link k).Reached) ?_ ?_ h) ha hb
  · rintro n rfl _ _
    exact .start rfl
  · rintro n ⟨i, e⟩ hn he ih ha hb
    exact Kept.link_act (Reached.kept hn) he ha hb
      (ih ((Nat.le_add_right _ _).trans ha) ((Nat.le_add_right _ _).trans hb))

/-- In every network of hosts and for every pair of ends that were opened at most once:
what one end returns and buffers is a prefix of what the other accepts, also after
either end was removed; once the FIN is consumed it is all that was accepted before the
FIN was queued. -/
theorem every_stream_intact (hn : n.Reached owner) (ha : n.born k ≤ 1)
    (hb : n.born k.mirror ≤ 1) (hlen : (n.party k).hist.accepted.length < 2 ^ 32 - 2)
    (hlen' : (n.party k.mirror).hist.accepted.length < 2 ^ 32 - 2) :
    (n.party k.mirror).received <+: (n.party k).hist.accepted ∧
      ((n.party k.mirror).hist.fin = true →
        (n.party k.mirror).received = (n.party k).beforeFin) := by
  have hfits : (n.link k).Fits := by
    refine (Reached.link hn k ha hb).fits fun x ↦ ?_
    cases x with
    | a => exact hlen
    | b => exact hlen'
  exact hfits.received .a

/-- Two hosts are connected to the same port of a third one. -/
def shared : Network (Fin 3) :=
  let owner (addr : UInt32) : Fin 3 := if addr = 11 then 1 else if addr = 12 then 2 else 0
  let n₁ := ((start.act 0 (.listen 10 80 false)).act 1 (.connect 0 1000 11 10 80)).act 2
    (.connect 0 2000 12 10 80)
  let n₂ := (((n₁.deliver owner 0 5000 0).deliver owner 0 6000 1).deliver owner 0 0 3).deliver
    owner 0 0 2
  (n₂.act 1 (.send 0 ⟨11, 49152, 10, 80⟩ [1, 2, 3])).act 2 (.send 0 ⟨12, 49152, 10, 80⟩ [4, 5])

theorem every_stream_intact_shared :
    ∃ (owner : UInt32 → Fin 3) (n : Network (Fin 3)), n.Reached owner ∧
      (n.party ⟨10, 80, 11, 49152⟩).received = [1, 2, 3] ∧
      (n.party ⟨10, 80, 12, 49152⟩).received = [4, 5] ∧
      (n.party ⟨10, 80, 11, 49152⟩).received <+: (n.party ⟨11, 49152, 10, 80⟩).hist.accepted := by
  let owner (addr : UInt32) : Fin 3 := if addr = 11 then 1 else if addr = 12 then 2 else 0
  let n := ((shared.deliver owner 0 0 7).deliver owner 0 0 6).deliver owner 0 0 7
  have hshared : shared.Reached owner :=
    ((((((((((reached_start owner).act 0 (.listen 10 80 false) trivial).act 1
      (.connect 0 1000 11 10 80) rfl).act 2 (.connect 0 2000 12 10 80) rfl).deliver
      0 5000 0).deliver 0 6000 1).deliver 0 0 3).deliver 0 0 2).act 1
      (.send 0 ⟨11, 49152, 10, 80⟩ [1, 2, 3]) trivial).act 2
      (.send 0 ⟨12, 49152, 10, 80⟩ [4, 5]) trivial)
  have hn : n.Reached owner := ((hshared.deliver 0 0 7).deliver 0 0 6).deliver 0 0 7
  obtain ⟨hpre, -⟩ := every_stream_intact (k := ⟨11, 49152, 10, 80⟩) hn (by decide +kernel)
    (by decide +kernel) (by decide +kernel) (by decide +kernel)
  exact ⟨owner, n, hn, by decide +kernel, by decide +kernel, hpre⟩

end

end Network

end MiniTcp
