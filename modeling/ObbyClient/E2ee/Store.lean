import ObbyClient.E2ee.Ratchet
import ObbyClient.Lib.Fifo

/-!
# The bound of the store of skipped keys

* `SkippedKeys.Coherent` — the queue lists exactly the keys of the map, within the bound;
* `SkippedKeys.order_run` — the queue of the store is a bounded queue of distinct keys;
* `Ratchet.decrypt_ops` — what reading one message puts into the store.
-/

namespace ObbyClient.E2ee

variable [Crypto]

namespace SkippedKeys

open Fifo (Move)

/-! ### One call -/

/-- Eviction drops the front of the queue down to the bound, and the keys of what it drops. -/
theorem evict_eq (byId : MessageId → Option Key) (order : List MessageId) :
    (evict byId order).order = order.drop (order.length - maxSkippedKeys) ∧
      ∀ id, (evict byId order).byId id =
        if id ∈ order.take (order.length - maxSkippedKeys) then none else byId id := by
  induction order generalizing byId with
  | nil =>
    rw [List.length_nil, Nat.zero_sub]
    exact ⟨rfl, fun id => rfl⟩
  | cons oldest rest ih =>
    rw [evict]
    by_cases h : maxSkippedKeys < (oldest :: rest).length
    · rw [if_pos h]
      have hover : (oldest :: rest).length - maxSkippedKeys =
          rest.length - maxSkippedKeys + 1 := by
        rw [List.length_cons] at h ⊢
        omega
      obtain ⟨horder, hbyId⟩ := ih (Function.update byId oldest none)
      rw [hover, List.drop_succ_cons, List.take_succ_cons]
      refine ⟨horder, fun id => ?_⟩
      rw [hbyId id]
      by_cases hid : id = oldest
      · rw [hid, Function.update_self, ite_self, if_pos List.mem_cons_self]
      · rw [Function.update_of_ne hid]
        simp only [List.mem_cons, hid, false_or]
    · rw [if_neg h, Nat.sub_eq_zero_of_le (not_lt.mp h), List.drop_zero, List.take_zero]
      exact ⟨rfl, fun id => (if_neg List.not_mem_nil).symm⟩

/-- The queue lists exactly the keys of the map, each once, and no more than the bound. -/
structure Coherent (skipped : SkippedKeys) : Prop where
  nodup : skipped.order.Nodup
  mem : ∀ id, id ∈ skipped.order ↔ skipped.byId id ≠ none
  bound : skipped.order.length ≤ maxSkippedKeys

variable {skipped : SkippedKeys} {dh : Key} {n : UInt32} {key : Key}

theorem Coherent.new : Coherent new where
  nodup := List.nodup_nil
  mem := fun _ => iff_of_false List.not_mem_nil (not_not.mpr rfl)
  bound := Nat.zero_le _

/-- A key that is put in again keeps its place in the queue. -/
theorem Coherent.insert_held (h : skipped.Coherent) (hid : skipped.byId (dh, n) ≠ none) :
    skipped.insert dh n key =
      ⟨Function.update skipped.byId (dh, n) (some key), skipped.order⟩ := by
  unfold insert
  dsimp only
  rw [if_neg hid, evict_of_le h.bound]

theorem insert_new (hid : skipped.byId (dh, n) = none) :
    skipped.insert dh n key =
      evict (Function.update skipped.byId (dh, n) (some key)) (skipped.order ++ [(dh, n)]) := by
  unfold insert
  dsimp only
  rw [if_pos hid]

/-- On the queue, an insertion is an admission. -/
theorem Coherent.insert_order (h : skipped.Coherent) (dh : Key) (n : UInt32) (key : Key) :
    (skipped.insert dh n key).order = Fifo.enqueue maxSkippedKeys skipped.order (dh, n) := by
  by_cases hid : skipped.byId (dh, n) = none
  · have hnew : (dh, n) ∉ skipped.order := fun hmem => (h.mem _).mp hmem hid
    rw [insert_new hid, (evict_eq _ _).1, Fifo.enqueue, if_neg hnew, List.length_append,
      List.length_singleton]
  · rw [h.insert_held hid, Fifo.enqueue_of_mem ((h.mem _).mpr hid)]

/-- A full store drops its oldest key for a new one, and no other. -/
theorem insert_full {oldest : MessageId} {rest : List MessageId}
    (horder : skipped.order = oldest :: rest) (hfull : skipped.order.length = maxSkippedKeys)
    (hid : skipped.byId (dh, n) = none) :
    skipped.insert dh n key =
      ⟨Function.update (Function.update skipped.byId (dh, n) (some key)) oldest none,
        rest ++ [(dh, n)]⟩ := by
  have hlen : rest.length + 1 = maxSkippedKeys := by rw [← hfull, horder, List.length_cons]
  have hover : maxSkippedKeys < (oldest :: (rest ++ [(dh, n)])).length := by
    rw [List.length_cons, List.length_append, List.length_singleton]
    omega
  have hfits : (rest ++ [(dh, n)]).length ≤ maxSkippedKeys := by
    rw [List.length_append, List.length_singleton]
    exact hlen.le
  rw [insert_new hid, horder, List.cons_append, evict, if_pos hover, evict_of_le hfits]

/-- What is listed after an insertion was listed before, or is the new key. -/
theorem Coherent.of_mem_insert (h : skipped.Coherent) {id : MessageId}
    (hmem : id ∈ (skipped.insert dh n key).order) (hid : id ≠ (dh, n)) : id ∈ skipped.order := by
  rw [h.insert_order] at hmem
  obtain hsub | ⟨_, hmove, -, hsub⟩ :=
    Fifo.step_sublist maxSkippedKeys skipped.order (.enqueue (dh, n))
  · exact hsub.subset hmem
  · obtain rfl := Move.enqueue.inj hmove
    exact (List.mem_append.mp (hsub.subset hmem)).resolve_right
      fun hlast => hid (List.mem_singleton.mp hlast)

/-- What the map holds after an insertion: the new key and the old ones, as far as they are
listed. -/
theorem Coherent.insert_byId_eq (h : skipped.Coherent) (id : MessageId) :
    (skipped.insert dh n key).byId id =
      if id ∈ (skipped.insert dh n key).order then
        Function.update skipped.byId (dh, n) (some key) id
      else none := by
  by_cases hheld : skipped.byId (dh, n) = none
  · obtain ⟨horder, hbyId⟩ := evict_eq (Function.update skipped.byId (dh, n) (some key))
      (skipped.order ++ [(dh, n)])
    have hnew : (dh, n) ∉ skipped.order := fun hmem => (h.mem _).mp hmem hheld
    have hnodup : (skipped.order ++ [(dh, n)]).Nodup :=
      List.nodup_append_comm.mp (List.nodup_cons.mpr ⟨hnew, h.nodup⟩)
    rw [insert_new hheld, hbyId id, horder]
    -- a key is dropped, or it stays, or it never was there
    by_cases hdropped : id ∈ (skipped.order ++ [(dh, n)]).take
        ((skipped.order ++ [(dh, n)]).length - maxSkippedKeys)
    · rw [if_pos hdropped, if_neg fun hstays =>
        List.disjoint_take_drop hnodup le_rfl hdropped hstays]
    · rw [if_neg hdropped]
      split
      · rfl
      · rename_i hstays
        have habsent : id ∉ skipped.order ++ [(dh, n)] := by
          rw [← List.take_append_drop ((skipped.order ++ [(dh, n)]).length - maxSkippedKeys)
            (skipped.order ++ [(dh, n)])]
          exact List.mem_append.not.mpr (not_or.mpr ⟨hdropped, hstays⟩)
        rw [List.mem_append, List.mem_singleton, not_or] at habsent
        rw [Function.update_of_ne habsent.2]
        exact not_not.mp (mt (h.mem id).mpr habsent.1)
  · rw [h.insert_held hheld]
    split
    · rfl
    · rename_i habsent
      have hid : id ≠ (dh, n) := by
        rintro rfl
        exact habsent ((h.mem _).mpr hheld)
      exact (Function.update_of_ne hid _ _).trans (not_not.mp (mt (h.mem id).mpr habsent))

theorem Coherent.insert (h : skipped.Coherent) (dh : Key) (n : UInt32) (key : Key) :
    (skipped.insert dh n key).Coherent where
  nodup := by
    rw [h.insert_order]
    exact Fifo.nodup_step (.enqueue (dh, n)) h.nodup
  bound := by
    rw [h.insert_order]
    exact Fifo.length_enqueue_le h.bound
  mem := by
    intro id
    rw [h.insert_byId_eq id]
    split
    · rename_i hmem
      refine iff_of_true hmem ?_
      by_cases hid : id = (dh, n)
      · rw [hid, Function.update_self]
        exact Option.some_ne_none key
      · rw [Function.update_of_ne hid]
        exact (h.mem id).mp (h.of_mem_insert hmem hid)
    · rename_i habsent
      exact iff_of_false habsent (not_not.mpr rfl)

theorem take_order {rest : SkippedKeys} (h : skipped.take dh n = some (key, rest)) :
    rest.order = Fifo.remove skipped.order (dh, n) := by
  unfold take at h
  dsimp only at h
  split at h
  · cases h
  · exact (congrArg SkippedKeys.order (Prod.mk.inj (Option.some.inj h)).2).symm

theorem Coherent.take (h : skipped.Coherent) {rest : SkippedKeys}
    (htake : skipped.take dh n = some (key, rest)) : rest.Coherent where
  nodup := by
    rw [take_order htake]
    exact h.nodup.filter _
  bound := by
    rw [take_order htake]
    exact (List.length_filter_le _ _).trans h.bound
  mem := by
    intro id
    rw [take_order htake, (take_eq_some htake).2.1, Fifo.remove, List.mem_filter,
      decide_eq_true_eq, h.mem id]
    by_cases hid : id = (dh, n)
    · rw [hid, Function.update_self]
      exact iff_of_false (fun hne => hne.2 rfl) (not_not.mpr rfl)
    · rw [Function.update_of_ne hid]
      exact and_iff_left hid

/-! ### A run of calls -/

/-- A call on the store. -/
inductive Op where
  | insert (dh : Key) (n : UInt32) (key : Key)
  | take (dh : Key) (n : UInt32)

/-- What a call leaves of the store; a key that is not there leaves it as it was. -/
def apply (skipped : SkippedKeys) : Op → SkippedKeys
  | .insert dh n key => skipped.insert dh n key
  | .take dh n => ((skipped.take dh n).map Prod.snd).getD skipped

/-- The store after some calls, from an empty one. -/
def run (ops : List Op) : SkippedKeys := ops.foldl apply new

/-- What a call does to the queue. -/
def Op.move : Op → Move MessageId
  | .insert dh n _ => .enqueue (dh, n)
  | .take dh n => .remove (dh, n)

theorem run_append (ops more : List Op) : run (ops ++ more) = more.foldl apply (run ops) :=
  List.foldl_append

theorem run_append_singleton (ops : List Op) (op : Op) : run (ops ++ [op]) = (run ops).apply op :=
  run_append ops [op]

theorem Coherent.apply (h : skipped.Coherent) (op : Op) : (skipped.apply op).Coherent := by
  cases op with
  | insert dh n key => exact h.insert dh n key
  | take dh n =>
    cases htake : skipped.take dh n with
    | none =>
      rw [SkippedKeys.apply, htake]
      exact h
    | some p =>
      rw [SkippedKeys.apply, htake]
      exact h.take htake

theorem Coherent.foldl (h : skipped.Coherent) (ops : List Op) :
    (ops.foldl SkippedKeys.apply skipped).Coherent := by
  induction ops generalizing skipped with
  | nil => exact h
  | cons op rest ih => exact ih (h.apply op)

/-- **The store stays coherent**, whatever is put in and taken out. -/
theorem coherent_run (ops : List Op) : (run ops).Coherent := Coherent.new.foldl ops

/-- On the queue, a call is a move. -/
theorem Coherent.apply_order (h : skipped.Coherent) (op : Op) :
    (skipped.apply op).order = Fifo.step maxSkippedKeys skipped.order op.move := by
  cases op with
  | insert dh n key => exact h.insert_order dh n key
  | take dh n =>
    cases htake : skipped.take dh n with
    | some p =>
      rw [SkippedKeys.apply, htake]
      exact take_order htake
    | none =>
      have habsent : (dh, n) ∉ skipped.order :=
        fun hmem => (h.mem _).mp hmem (take_eq_none.mp htake)
      rw [SkippedKeys.apply, htake]
      refine (List.filter_eq_self.mpr fun entry hentry => decide_eq_true ?_).symm
      rintro rfl
      exact habsent hentry

/-- **The queue of the store is a bounded queue of distinct keys.** -/
theorem order_run (ops : List Op) :
    (run ops).order = Fifo.run maxSkippedKeys (ops.map Op.move) := by
  induction ops using List.reverseRecOn with
  | nil => rfl
  | append_singleton ops op ih =>
    rw [run_append_singleton, (coherent_run ops).apply_order, ih, List.map_append,
      List.map_singleton, Fifo.run_append_singleton]

/-- A key that is not held stays away until it is put in. -/
theorem Coherent.byId_foldl_none {ops : List Op} (h : skipped.Coherent)
    (hnone : skipped.byId (dh, n) = none) (hops : ∀ key, Op.insert dh n key ∉ ops) :
    (ops.foldl SkippedKeys.apply skipped).byId (dh, n) = none := by
  induction ops generalizing skipped with
  | nil => exact hnone
  | cons op rest ih =>
    refine ih (h.apply op) ?_ fun key hkey => hops key (List.mem_cons_of_mem _ hkey)
    cases op with
    | insert dh' n' key' =>
      have hid : (dh, n) ≠ (dh', n') := by
        intro heq
        obtain ⟨rfl, rfl⟩ := Prod.mk.inj heq
        exact hops key' List.mem_cons_self
      rw [SkippedKeys.apply, h.insert_byId_eq]
      split
      · rw [Function.update_of_ne hid, hnone]
      · rfl
    | take dh' n' =>
      cases htake : skipped.take dh' n' with
      | none =>
        rw [SkippedKeys.apply, htake]
        exact hnone
      | some p =>
        rw [SkippedKeys.apply, htake]
        show p.2.byId (dh, n) = none
        rw [(take_eq_some htake).2.1]
        by_cases hid : (dh, n) = (dh', n')
        · rw [hid, Function.update_self]
        · rw [Function.update_of_ne hid, hnone]

/-- A key that was taken is not taken again, until it is put in again. -/
theorem Coherent.take_once (h : skipped.Coherent) {rest : SkippedKeys} {ops : List Op}
    (htake : skipped.take dh n = some (key, rest)) (hops : ∀ key, Op.insert dh n key ∉ ops) :
    (ops.foldl SkippedKeys.apply rest).take dh n = none := by
  refine take_eq_none.mpr ((h.take htake).byId_foldl_none ?_ hops)
  rw [(take_eq_some htake).2.1, Function.update_self]

/-- At some moment the map held the one and not the other, and it has held the one ever since. -/
def Older (ops : List Op) (a b : MessageId) : Prop :=
  ∃ earlier later, ops = earlier ++ later ∧ (run earlier).byId b = none ∧
    ∀ part, part <+: later → (run (earlier ++ part)).byId a ≠ none

/-- **The queue lists its keys oldest first.** -/
theorem pairwise_older (ops : List Op) : (run ops).order.Pairwise (Older ops) := by
  rw [order_run]
  refine (Fifo.pairwise_older maxSkippedKeys (ops.map Op.move)).imp ?_
  rintro a b ⟨_, _, hops, hb, hheld⟩
  obtain ⟨earlier, later, rfl, rfl, rfl⟩ := List.map_eq_append_iff.mp hops
  rw [← order_run, (coherent_run earlier).mem] at hb
  refine ⟨earlier, later, rfl, not_not.mp hb, fun part hpart => ?_⟩
  have ha := hheld (part.map Op.move) (hpart.map Op.move)
  rwa [← List.map_append, ← order_run, (coherent_run _).mem] at ha

/-! ### What a run adds to a chain -/

/-- A call that puts a key of this chain in. -/
def Op.into (dh : Key) : Op → Bool
  | .insert dh' _ _ => dh' = dh
  | .take _ _ => false

/-- What a call is about. -/
def Op.id : Op → MessageId
  | .insert dh n _ => (dh, n)
  | .take dh n => (dh, n)

/-- The keys of a chain that a later store lists and an earlier one did not. -/
def added (earlier later : SkippedKeys) (dh : Key) : List MessageId :=
  later.order.filter fun id => id.1 = dh ∧ id ∉ earlier.order

/-- Who is listed after some calls was listed before, or was put in by one of them. -/
theorem Coherent.of_mem_foldl (h : skipped.Coherent) {ops : List Op} {id : MessageId}
    (hid : id ∈ (ops.foldl SkippedKeys.apply skipped).order) :
    id ∈ skipped.order ∨ ∃ op ∈ ops, op.into id.1 ∧ op.id = id := by
  induction ops generalizing skipped with
  | nil => exact .inl hid
  | cons op rest ih =>
    obtain hmem | ⟨later, hlater, hinto⟩ := ih (h.apply op) hid
    · rw [h.apply_order] at hmem
      obtain hsub | ⟨key, hmove, -, hsub⟩ :=
        Fifo.step_sublist maxSkippedKeys skipped.order op.move
      · exact .inl (hsub.subset hmem)
      · obtain hold | hnew := List.mem_append.mp (hsub.subset hmem)
        · exact .inl hold
        · obtain rfl := List.mem_singleton.mp hnew
          cases op with
          | take dh n => cases hmove
          | insert dh n key =>
            obtain rfl := Move.enqueue.inj hmove
            exact .inr ⟨_, List.mem_cons_self, decide_eq_true rfl, rfl⟩
    · exact .inr ⟨later, List.mem_cons_of_mem _ hlater, hinto⟩

/-- Some calls add no more keys to a chain than they put in. -/
theorem Coherent.length_added_le (h : skipped.Coherent) (ops : List Op) (dh : Key) :
    (added skipped (ops.foldl SkippedKeys.apply skipped) dh).length ≤ ops.countP (Op.into dh) := by
  have hnodup : (added skipped (ops.foldl SkippedKeys.apply skipped) dh).Nodup :=
    (h.foldl ops).nodup.filter _
  have hsubset : added skipped (ops.foldl SkippedKeys.apply skipped) dh ⊆
      (ops.filter (Op.into dh)).map Op.id := by
    intro id hid
    obtain ⟨hmem, hnew⟩ := List.mem_filter.mp hid
    obtain ⟨hdh, habsent⟩ := of_decide_eq_true hnew
    obtain hold | ⟨op, hop, hinto, heq⟩ := h.of_mem_foldl hmem
    · exact absurd hold habsent
    · rw [hdh] at hinto
      exact List.mem_map.mpr ⟨op, List.mem_filter.mpr ⟨hop, hinto⟩, heq⟩
  have hle := (hnodup.subperm hsubset).length_le
  rwa [List.length_map, ← List.countP_eq_length_filter] at hle

end SkippedKeys

/-! ### Reading one message -/

namespace Ratchet

open SkippedKeys (Op)

/-- A change of the store that puts in no more keys than one skip may, all of this chain. -/
def Skips (dhr : Option Key) (earlier later : SkippedKeys) : Prop :=
  ∃ ops : List Op, later = ops.foldl SkippedKeys.apply earlier ∧ ops.length ≤ maxSkip ∧
    ∀ op ∈ ops, ∃ dh n key, dhr = some dh ∧ op = .insert dh n key

theorem Skips.refl (dhr : Option Key) (skipped : SkippedKeys) : Skips dhr skipped skipped :=
  ⟨[], rfl, Nat.zero_le _, fun _ hop => absurd hop List.not_mem_nil⟩

/-- One turn of the loop, one key put in. -/
theorem skipLoop_ops {dhr : Key} {span : ℕ} {skipped : SkippedKeys} {chain : Key} {n : UInt32}
    {out : SkippedKeys × Key × UInt32} (h : skipLoop dhr span skipped chain n = .ok out) :
    ∃ ops : List Op, out.1 = ops.foldl SkippedKeys.apply skipped ∧ ops.length = span ∧
      ∀ op ∈ ops, ∃ n key, op = .insert dhr n key := by
  induction span generalizing skipped chain n with
  | zero =>
    obtain rfl := Except.ok.inj h
    exact ⟨[], rfl, rfl, fun _ hop => absurd hop List.not_mem_nil⟩
  | succ span ih =>
    rw [skipLoop] at h
    obtain ⟨⟨messageKey, nextChain⟩, -, h⟩ := bind_eq_ok.mp h
    obtain ⟨next, -, h⟩ := bind_eq_ok.mp h
    obtain ⟨ops, hout, hlen, hops⟩ := ih h
    refine ⟨.insert dhr n messageKey :: ops, hout, congrArg Nat.succ hlen, ?_⟩
    intro op hop
    obtain rfl | hop := List.mem_cons.mp hop
    · exact ⟨n, messageKey, rfl⟩
    · exact hops op hop

/-- **One skip** puts in no more keys than it may, all of the chain it moves. -/
theorem skip_skips {r trial : Ratchet} {upTo : UInt32}
    (h : r.skipCurrentReceivingChain upTo = .ok trial) :
    Skips r.dhr r.skipped trial.skipped ∧ trial.dhr = r.dhr := by
  unfold skipCurrentReceivingChain at h
  split at h
  · rename_i dhr chain hdhr hchain
    split at h
    · obtain rfl := Except.ok.inj h
      exact ⟨Skips.refl _ _, rfl⟩
    split at h
    · cases h
    rename_i hspan
    obtain ⟨out, hout, h⟩ := bind_eq_ok.mp h
    obtain rfl := Except.ok.inj h
    obtain ⟨ops, hops, hlen, hinto⟩ := skipLoop_ops hout
    refine ⟨⟨ops, hops, hlen ▸ not_lt.mp hspan, fun op hop => ?_⟩, rfl⟩
    obtain ⟨n, key, rfl⟩ := hinto op hop
    exact ⟨dhr, n, key, hdhr, rfl⟩
  · obtain rfl := Except.ok.inj h
    exact ⟨Skips.refl _ _, rfl⟩

theorem dhRatchetReceive_skipped {r trial : Ratchet} {newDhr : Key} {rng rng' : RandomSource}
    (h : r.dhRatchetReceive newDhr rng = (.ok trial, rng')) :
    trial.skipped = r.skipped ∧ trial.dhr = some newDhr := by
  unfold dhRatchetReceive at h
  dsimp only at h
  split at h
  · cases (Prod.mk.inj h).1
  split at h
  · cases (Prod.mk.inj h).1
  obtain rfl := Except.ok.inj (Prod.mk.inj h).1
  exact ⟨rfl, rfl⟩

/-- Finding the chain of a message leaves the old chain behind, if it is another. -/
theorem follow_skips {r head : Ratchet} {msg : RatchetMessage} {rng rng' : RandomSource}
    (h : r.follow msg rng = (.ok head, rng')) :
    head.dhr = some msg.dh ∧
      (head.skipped = r.skipped ∨
        r.dhr ≠ some msg.dh ∧ Skips r.dhr r.skipped head.skipped) := by
  unfold follow at h
  split at h
  · rename_i hnew
    split at h
    · cases (Prod.mk.inj h).1
    rename_i left hskip
    obtain ⟨hsame, hdhr⟩ := dhRatchetReceive_skipped h
    rw [hsame]
    exact ⟨hdhr, .inr ⟨hnew, (skip_skips hskip).1⟩⟩
  · rename_i hsame
    obtain rfl := Except.ok.inj (Prod.mk.inj h).1
    exact ⟨not_not.mp hsame, .inl rfl⟩

theorem takeNext_skips {r trial : Ratchet} {msg : RatchetMessage} {key : Key}
    (h : r.takeNext msg = .ok (key, trial)) : Skips r.dhr r.skipped trial.skipped := by
  unfold takeNext at h
  obtain ⟨head, hskip, h⟩ := bind_eq_ok.mp h
  split at h
  · cases h
  obtain ⟨p, -, h⟩ := bind_eq_ok.mp h
  obtain ⟨n, -, h⟩ := bind_eq_ok.mp h
  obtain rfl := (Prod.mk.inj (Except.ok.inj h)).2
  exact (skip_skips hskip).1

/-- What a skip puts into one chain. -/
theorem countP_into_le {ops : List Op} {dhr : Option Key} (hlen : ops.length ≤ maxSkip)
    (hops : ∀ op ∈ ops, ∃ dh n key, dhr = some dh ∧ op = .insert dh n key) (dh : Key) :
    ops.countP (Op.into dh) ≤ if dhr = some dh then maxSkip else 0 := by
  split
  · exact List.countP_le_length.trans hlen
  · rename_i hother
    rw [Nat.le_zero, List.countP_eq_zero]
    intro op hop hinto
    obtain ⟨dh', n, key, hdhr, rfl⟩ := hops op hop
    exact hother (hdhr.trans (congrArg some (of_decide_eq_true hinto)))

/-- **Reading one message** takes one key out of the store, or puts in no more of each chain than
one skip may, or leaves it as it was. -/
theorem decrypt_ops (r : Ratchet) (msg : RatchetMessage) (rng : RandomSource) :
    ∃ ops : List Op, (r.decrypt msg rng).2.1.skipped = ops.foldl SkippedKeys.apply r.skipped ∧
      ∀ dh, ops.countP (Op.into dh) ≤ maxSkip := by
  have hnone : ∃ ops : List Op, r.skipped = ops.foldl SkippedKeys.apply r.skipped ∧
      ∀ dh, ops.countP (Op.into dh) ≤ maxSkip := ⟨[], rfl, fun dh => Nat.zero_le _⟩
  unfold decrypt
  split
  · rename_i messageKey skipped htake
    split
    · exact hnone
    · refine ⟨[.take msg.dh msg.n], ?_, fun dh => Nat.zero_le _⟩
      show skipped = ((r.skipped.take msg.dh msg.n).map Prod.snd).getD r.skipped
      rw [htake]
      rfl
  · split
    · exact hnone
    rename_i head rng' hfollow
    split
    · exact hnone
    rename_i messageKey trial hnext
    split
    · exact hnone
    obtain ⟨own, hown, hlen, hops⟩ := takeNext_skips hnext
    obtain ⟨hdhr, hsame | ⟨hnew, left, hleft, hlenLeft, hopsLeft⟩⟩ := follow_skips hfollow
    · rw [hsame] at hown
      refine ⟨own, hown, fun dh => (countP_into_le hlen hops dh).trans ?_⟩
      split <;> omega
    · rw [hleft, ← List.foldl_append] at hown
      refine ⟨left ++ own, hown, fun dh => ?_⟩
      have hl := countP_into_le hlenLeft hopsLeft dh
      have ho := countP_into_le hlen hops dh
      rw [List.countP_append]
      -- the chain left behind is not the chain of the message
      by_cases hdh : head.dhr = some dh
      · have hother : r.dhr ≠ some dh := fun h => hnew (h.trans (hdh.symm.trans hdhr))
        rw [if_neg hother] at hl
        rw [if_pos hdh] at ho
        omega
      · rw [if_neg hdh] at ho
        split at hl <;> omega

/-- The bound of the store and what a chain adds to it, whatever the message claims. -/
theorem decrypt_store {r : Ratchet} (h : r.skipped.Coherent) (msg : RatchetMessage)
    (rng : RandomSource) :
    (r.decrypt msg rng).2.1.skipped.Coherent ∧
      ∀ dh, (SkippedKeys.added r.skipped (r.decrypt msg rng).2.1.skipped dh).length ≤ maxSkip := by
  obtain ⟨ops, hops, hcount⟩ := r.decrypt_ops msg rng
  rw [hops]
  exact ⟨h.foldl ops, fun dh => (h.length_added_le ops dh).trans (hcount dh)⟩

/-- Sending leaves the store alone. -/
theorem encrypt_skipped (r : Ratchet) (plaintext : Bytes) :
    (r.encrypt plaintext).2.skipped = r.skipped := by
  unfold encrypt
  split
  · rfl
  split
  · rfl
  dsimp only
  split
  · rfl
  split
  · rfl
  · rfl

/-- What a session asks of its ratchet. -/
inductive Call where
  | encrypt (plaintext : Bytes)
  | decrypt (msg : RatchetMessage) (rng : RandomSource)

/-- The ratchet after a call. -/
def call (r : Ratchet) : Call → Ratchet
  | .encrypt plaintext => (r.encrypt plaintext).2
  | .decrypt msg rng => (r.decrypt msg rng).2.1

/-- **The store stays coherent over a whole session**, whichever messages come. -/
theorem coherent_calls {r : Ratchet} (h : r.skipped.Coherent) (calls : List Call) :
    (calls.foldl call r).skipped.Coherent := by
  induction calls generalizing r with
  | nil => exact h
  | cons c rest ih =>
    refine ih ?_
    cases c with
    | encrypt plaintext =>
      show (r.encrypt plaintext).2.skipped.Coherent
      rw [encrypt_skipped]
      exact h
    | decrypt msg rng => exact (decrypt_store h msg rng).1

end Ratchet

namespace SkippedKeys

/-- **The store of skipped keys**, after any calls: its queue lists the keys of its map, each once,
oldest first, within the bound; a new key puts the oldest out of a full store, and no other; a key
taken is not taken again, until it is put in again.  Reading one message, whatever it claims, keeps
the store within the bound and adds no more keys of a chain than one skip may; and over a whole
session the queue lists the keys of the map, within the bound. -/
theorem store_of_skipped_keys (ops : List Op) :
    ((run ops).order.Nodup ∧ (∀ id, id ∈ (run ops).order ↔ (run ops).byId id ≠ none) ∧
      (run ops).order.Pairwise (Older ops) ∧ (run ops).order.length ≤ maxSkippedKeys) ∧
    (∀ dh n key oldest rest, (run ops).byId (dh, n) = none →
      (run ops).order = oldest :: rest → (run ops).order.length = maxSkippedKeys →
      (run ops).insert dh n key =
        ⟨Function.update (Function.update (run ops).byId (dh, n) (some key)) oldest none,
          rest ++ [(dh, n)]⟩) ∧
    (∀ dh n key rest, (run ops).take dh n = some (key, rest) →
      (run ops).byId (dh, n) = some key ∧
      ∀ later : List Op, (∀ key', Op.insert dh n key' ∉ later) →
        (later.foldl apply rest).take dh n = none) ∧
    (∀ (r : Ratchet) (msg : RatchetMessage) (rng : RandomSource),
      let after := (Ratchet.decrypt { r with skipped := run ops } msg rng).2.1.skipped
      (∃ more, after = run (ops ++ more)) ∧ after.order.length ≤ maxSkippedKeys ∧
        ∀ dh, (added (run ops) after dh).length ≤ maxSkip) ∧
    ∀ (r : Ratchet) (calls : List Ratchet.Call),
      (calls.foldl Ratchet.call { r with skipped := run ops }).skipped.Coherent := by
  have hops := coherent_run ops
  refine ⟨⟨hops.nodup, hops.mem, pairwise_older ops, hops.bound⟩, ?_, ?_, ?_, ?_⟩
  · intro dh n key oldest rest hnew horder hfull
    exact insert_full horder hfull hnew
  · intro dh n key rest htake
    exact ⟨(take_eq_some htake).1, fun later hlater => hops.take_once htake hlater⟩
  · intro r msg rng
    obtain ⟨hbound, hadded⟩ :=
      Ratchet.decrypt_store (r := { r with skipped := run ops }) hops msg rng
    obtain ⟨more, hmore, -⟩ := Ratchet.decrypt_ops { r with skipped := run ops } msg rng
    exact ⟨⟨more, hmore.trans (run_append ops more).symm⟩, hbound.bound, hadded⟩
  · intro r calls
    exact Ratchet.coherent_calls (r := { r with skipped := run ops }) hops calls

end SkippedKeys

end ObbyClient.E2ee
