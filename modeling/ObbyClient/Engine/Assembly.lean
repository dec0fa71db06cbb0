import ObbyClient.Engine.Batch

/-!
# What an open batch comes to hold

Batches share one map, and their lines interleave.  What each of them collects is nevertheless read
off the lines that name it alone.

* `Batches.kept` — messages without those whose id an earlier kept one carries;
* `Batches.collected` — the batch that an open line and the lines routed into it make;
* `Batches.batches_do_not_interfere` — what a close hands back, when an open is refused, and when a
  line belongs to no batch.
-/

namespace ObbyClient.Batches

/-- One call on the tracker. -/
inductive Call where
  | opened (line : Message)
  | route (line : Message)
  | close (line : Message)

/-- The tracker after one call. -/
def call (batches : Batches) : Call → Batches
  | .opened line => batches.opened line
  | .route line => (batches.route line).getD batches
  | .close line => ((batches.close line).map Prod.fst).getD batches

/-- The tracker after several calls. -/
def calls (batches : Batches) (cs : List Call) : Batches := cs.foldl call batches

/-! ### What one batch is about -/

/-- True when one of these messages carries the id of this one. -/
def repeats (messages : List Message) (message : Message) : Bool :=
  (message.tag "msgid").any fun id => messages.any fun earlier => earlier.tag "msgid" == some id

/-- Messages without those whose id an earlier kept one carries. -/
def kept (messages : List Message) : List Message :=
  messages.foldl (fun kept message => if repeats kept message then kept else kept ++ [message]) []

/-- The lines that are routed by this reference. -/
def routed (reference : Str) (cs : List Call) : List Message :=
  cs.filterMap fun c =>
    match c with
    | .route line => if line.tag "batch" = some reference then some line else none
    | _ => none

/-- The batch that an open line and the lines that name it make. -/
def collected (line : Message) (kind : Str) (messages : List Message) (maxBuffered : ℕ) :
    ClosedBatch :=
  ⟨kind, line.params.drop 2, line.tag "batch", (kept messages).take maxBuffered,
    maxBuffered < (kept messages).length⟩

/-- An open line that opens a batch. -/
def Accepts (batches : Batches) (line : Message) (reference kind : Str) : Prop :=
  marked '+' line = some reference ∧ line.param 1 = some kind ∧
    batches.byReference[reference]? = none ∧ batches.byReference.size < batches.maxOpen

theorem kept_concat (messages : List Message) (message : Message) :
    kept (messages ++ [message]) =
      if repeats (kept messages) message then kept messages else kept messages ++ [message] := by
  rw [kept, List.foldl_append]
  rfl

/-! ### One batch -/

/-- A batch that holds what its lines make, and knows the ids among it. -/
structure Collects (line : Message) (kind : Str) (maxBuffered : ℕ) (messages : List Message)
    (batch : OpenBatch) : Prop where
  closed : batch.toClosedBatch = collected line kind messages maxBuffered
  seen : ∀ id, batch.seen.contains id = batch.messages.any fun m => m.tag "msgid" == some id

theorem Collects.start (line : Message) (kind : Str) (maxBuffered : ℕ) :
    Collects line kind maxBuffered [] ⟨⟨kind, line.params.drop 2, line.tag "batch", [], false⟩,
      ∅⟩ := by
  refine ⟨?_, fun id => by simp⟩
  simp [collected, kept]

/-- **One line more.** -/
theorem Collects.push {line : Message} {kind : Str} {maxBuffered : ℕ} {messages : List Message}
    {batch : OpenBatch} (h : Collects line kind maxBuffered messages batch) (message : Message) :
    Collects line kind maxBuffered (messages ++ [message]) (batch.push message maxBuffered) := by
  obtain ⟨⟨k, params, parent, held, overflowed⟩, seen⟩ := batch
  obtain ⟨hclosed, hseen⟩ := h
  have hrepeats : (message.tag "msgid").any seen.contains = repeats held message := by
    unfold repeats
    congr 1
    funext id
    exact hseen id
  rw [collected, ClosedBatch.mk.injEq] at hclosed
  obtain ⟨rfl, rfl, rfl, hheld, hoverflowed⟩ := hclosed
  unfold OpenBatch.push
  dsimp only
  rw [hrepeats]
  by_cases hfull : maxBuffered < (kept messages).length
  · -- a batch that overflowed takes nothing more
    rw [decide_eq_true hfull] at hoverflowed
    rw [hoverflowed, if_pos rfl]
    refine ⟨?_, hseen⟩
    have hlength : maxBuffered < (kept (messages ++ [message])).length := by
      rw [kept_concat]
      split
      · exact hfull
      · rw [List.length_append]
        omega
    have htake : (kept (messages ++ [message])).take maxBuffered =
        (kept messages).take maxBuffered := by
      rw [kept_concat]
      split
      · rfl
      · exact List.take_append_of_le_length hfull.le
    rw [collected, htake, decide_eq_true hlength, hheld]
  · rw [decide_eq_false hfull] at hoverflowed
    rw [List.take_of_length_le (Nat.not_lt.mp hfull)] at hheld
    rw [hoverflowed, if_neg Bool.false_ne_true, hheld]
    by_cases hrepeat : repeats (kept messages) message = true
    · rw [if_pos hrepeat]
      refine ⟨?_, by rwa [hheld] at hseen⟩
      rw [collected, kept_concat, if_pos hrepeat, decide_eq_false hfull,
        List.take_of_length_le (Nat.not_lt.mp hfull)]
    rw [if_neg hrepeat]
    have hkept : kept (messages ++ [message]) = kept messages ++ [message] := by
      rw [kept_concat, if_neg hrepeat]
    by_cases hroom : maxBuffered ≤ (kept messages).length
    · rw [if_pos hroom]
      have hlength : (kept messages).length = maxBuffered := by omega
      refine ⟨?_, by rwa [hheld] at hseen⟩
      rw [collected, hkept, List.take_append_of_le_length hroom,
        List.take_of_length_le hlength.le, List.length_append, hlength,
        decide_eq_true (by simp)]
    · rw [if_neg hroom]
      have hlength : (kept messages ++ [message]).length ≤ maxBuffered := by
        rw [List.length_append, List.length_singleton]
        omega
      refine ⟨?_, fun id => ?_⟩
      · rw [collected, hkept, List.take_of_length_le hlength,
          decide_eq_false (Nat.not_lt.mpr hlength)]
      · dsimp only
        rw [List.any_append, ← hheld, ← hseen id, List.any_cons, List.any_nil, Bool.or_false]
        generalize message.tag "msgid" = carried
        cases carried with
        | none => exact (Bool.or_false _).symm
        | some carried =>
            show (seen.insert carried).contains id = (seen.contains id || (some carried == some id))
            rw [Std.ExtTreeSet.contains_insert, Bool.or_comm]
            congr 1
            rw [Bool.eq_iff_iff, beq_iff_eq, beq_iff_eq, Std.LawfulEqCmp.compare_eq_iff_eq,
              Option.some_inj]

theorem Collects.pushes {line : Message} {kind : Str} {maxBuffered : ℕ} {messages : List Message}
    {batch : OpenBatch} (h : Collects line kind maxBuffered messages batch)
    (more : List Message) :
    Collects line kind maxBuffered (messages ++ more)
      (more.foldl (fun batch line => batch.push line maxBuffered) batch) := by
  induction more generalizing messages batch with
  | nil =>
      rw [List.append_nil]
      exact h
  | cons message more ih =>
      have hrest := ih (h.push message)
      rw [List.append_assoc] at hrest
      exact hrest

/-! ### The shared map -/

theorem close_eq (batches : Batches) (line : Message) :
    batches.close line =
      (marked '-' line).bind fun reference => batches.byReference[reference]?.map fun batch =>
        ({ batches with byReference := batches.byReference.erase reference },
          batch.toClosedBatch) := by
  unfold close
  simp only [Option.map_eq_bind]
  rfl

theorem route_eq (batches : Batches) (line : Message) :
    batches.route line =
      (line.tag "batch").bind fun reference => batches.byReference[reference]?.map fun batch =>
        { batches with
          byReference :=
            batches.byReference.insert reference (batch.push line batches.maxBuffered) } := by
  unfold route holder
  simp only [Option.map_eq_bind, Option.bind_eq_bind, Option.bind_assoc]
  rfl

/-- An open line that is accepted adds its batch, and any other changes nothing. -/
theorem opened_cases (batches : Batches) (line : Message) :
    (∃ reference kind, batches.Accepts line reference kind ∧
      batches.opened line =
        { batches with
          byReference := batches.byReference.insert reference
            ⟨⟨kind, line.params.drop 2, line.tag "batch", [], false⟩, ∅⟩ }) ∨
      (batches.opened line = batches ∧ ∀ reference kind,
        ¬ batches.Accepts line reference kind) := by
  unfold opened Accepts
  cases hreference : marked '+' line with
  | none => exact .inr ⟨rfl, fun reference kind h => absurd h.1 (by simp)⟩
  | some reference =>
      cases hkind : line.param 1 with
      | none => exact .inr ⟨rfl, fun reference kind h => absurd h.2.1 (by simp)⟩
      | some kind =>
          dsimp only
          by_cases hopen : batches.byReference.contains reference = true
          · rw [if_pos hopen]
            refine .inr ⟨rfl, fun reference' kind' h => ?_⟩
            obtain ⟨hsame, -, hnone, -⟩ := h
            rw [← Option.some.inj hsame] at hnone
            rw [Std.ExtTreeMap.contains_eq_isSome_getElem?, hnone] at hopen
            cases hopen
          rw [if_neg hopen]
          by_cases hfull : batches.maxOpen ≤ batches.byReference.size
          · rw [if_pos hfull]
            exact .inr ⟨rfl, fun reference' kind' h => absurd h.2.2.2 (Nat.not_lt.mpr hfull)⟩
          · rw [if_neg hfull]
            refine .inl ⟨reference, kind, ⟨rfl, rfl, ?_, Nat.not_le.mp hfull⟩, rfl⟩
            rwa [Std.ExtTreeMap.contains_eq_isSome_getElem?, Option.isSome_iff_ne_none, not_not]
              at hopen

/-- No call moves the bounds of the tracker. -/
theorem limits_call (batches : Batches) (c : Call) :
    (batches.call c).maxBuffered = batches.maxBuffered ∧
      (batches.call c).maxOpen = batches.maxOpen := by
  cases c with
  | opened line =>
      show (batches.opened line).maxBuffered = _ ∧ (batches.opened line).maxOpen = _
      rcases batches.opened_cases line with ⟨reference, kind, -, h⟩ | ⟨h, -⟩
      · rw [h]
        exact ⟨rfl, rfl⟩
      · rw [h]
        exact ⟨rfl, rfl⟩
  | route line =>
      show ((batches.route line).getD batches).maxBuffered = _ ∧
        ((batches.route line).getD batches).maxOpen = _
      rw [route_eq]
      cases line.tag "batch" with
      | none => exact ⟨rfl, rfl⟩
      | some reference =>
          rw [Option.bind_some]
          cases batches.byReference[reference]? <;> exact ⟨rfl, rfl⟩
  | close line =>
      show (((batches.close line).map Prod.fst).getD batches).maxBuffered = _ ∧
        (((batches.close line).map Prod.fst).getD batches).maxOpen = _
      rw [close_eq]
      cases marked '-' line with
      | none => exact ⟨rfl, rfl⟩
      | some reference =>
          rw [Option.bind_some]
          cases batches.byReference[reference]? <;> exact ⟨rfl, rfl⟩

/-- **A call that does not close a batch adds to it what it routes there**, whatever it does to the
others. -/
theorem call_collects (batches : Batches) (c : Call) {reference : Str} {batch : OpenBatch}
    (hbatch : batches.byReference[reference]? = some batch)
    (hopen : ∀ line, c = .close line → marked '-' line ≠ some reference) :
    (batches.call c).byReference[reference]? =
      some ((routed reference [c]).foldl (fun batch line => batch.push line batches.maxBuffered)
        batch) := by
  have hother : ∀ {other : Str} {found : Option OpenBatch}, batches.byReference[other]? = found →
      found ≠ some batch → other ≠ reference := by
    intro other found hfound hne heq
    exact hne (by rw [← hfound, heq, hbatch])
  cases c with
  | opened line =>
      show (batches.opened line).byReference[reference]? = some batch
      rcases batches.opened_cases line with ⟨other, kind, hcan, h⟩ | ⟨h, -⟩
      · have hne : compare other reference ≠ .eq := by
          rw [ne_eq, Std.LawfulEqCmp.compare_eq_iff_eq]
          exact hother hcan.2.2.1 (by simp)
        rw [h, Std.ExtTreeMap.getElem?_insert, if_neg hne, hbatch]
      · rw [h, hbatch]
  | route line =>
      show ((batches.route line).getD batches).byReference[reference]? = _
      rw [route_eq]
      unfold routed
      rw [List.filterMap_cons, List.filterMap_nil]
      dsimp only
      generalize line.tag "batch" = tag
      cases tag with
      | none =>
          rw [if_neg (by simp)]
          exact hbatch
      | some other =>
          rw [Option.bind_some]
          by_cases heq : other = reference
          · rw [heq, if_pos rfl, hbatch]
            show (batches.byReference.insert reference _)[reference]? = _
            rw [Std.ExtTreeMap.getElem?_insert_self]
            rfl
          · rw [if_neg (by simpa using heq)]
            have hne : compare other reference ≠ .eq := by
              rwa [ne_eq, Std.LawfulEqCmp.compare_eq_iff_eq]
            cases batches.byReference[other]? with
            | none => exact hbatch
            | some found =>
                show (batches.byReference.insert other _)[reference]? = _
                rw [Std.ExtTreeMap.getElem?_insert, if_neg hne]
                exact hbatch
  | close line =>
      show (((batches.close line).map Prod.fst).getD batches).byReference[reference]? = some batch
      rw [close_eq]
      have hmarked := hopen line rfl
      generalize marked '-' line = closed at hmarked
      cases closed with
      | none => exact hbatch
      | some other =>
          have hne : compare other reference ≠ .eq := by
            rw [ne_eq, Std.LawfulEqCmp.compare_eq_iff_eq]
            exact fun heq => hmarked (congrArg some heq)
          rw [Option.bind_some]
          cases batches.byReference[other]? with
          | none => exact hbatch
          | some found =>
              show (batches.byReference.erase other)[reference]? = _
              rw [Std.ExtTreeMap.getElem?_erase, if_neg hne]
              exact hbatch

theorem routed_append (reference : Str) (cs ds : List Call) :
    routed reference (cs ++ ds) = routed reference cs ++ routed reference ds :=
  List.filterMap_append

/-- What an open batch holds after any calls that do not close it. -/
theorem calls_collects {batches : Batches} {line : Message} {reference kind : Str}
    (h : batches.Accepts line reference kind) (cs : List Call)
    (hopen : ∀ last, .close last ∈ cs → marked '-' last ≠ some reference) :
    ∃ batch, ((batches.opened line).calls cs).byReference[reference]? = some batch ∧
      Collects line kind batches.maxBuffered (routed reference cs) batch ∧
      ((batches.opened line).calls cs).maxBuffered = batches.maxBuffered := by
  induction cs using List.reverseRecOn with
  | nil =>
      rcases batches.opened_cases line with ⟨other, kind', hcan, hopened⟩ | ⟨-, hnone⟩
      · obtain rfl : reference = other := Option.some.inj (h.1.symm.trans hcan.1)
        obtain rfl : kind = kind' := Option.some.inj (h.2.1.symm.trans hcan.2.1)
        refine ⟨_, ?_, Collects.start line kind _, ?_⟩
        · show (batches.opened line).byReference[reference]? = _
          rw [hopened, Std.ExtTreeMap.getElem?_insert_self]
        · show (batches.opened line).maxBuffered = _
          rw [hopened]
      · exact absurd h (hnone reference kind)
  | append_singleton cs c ih =>
      obtain ⟨batch, hbatch, hcollects, hmax⟩ :=
        ih fun last hlast => hopen last (List.mem_append_left _ hlast)
      have hstep : (batches.opened line).calls (cs ++ [c]) =
          ((batches.opened line).calls cs).call c := by
        rw [calls, List.foldl_append]
        rfl
      rw [hstep, routed_append, (limits_call _ c).1, hmax]
      refine ⟨_, call_collects _ c hbatch ?_, ?_, rfl⟩
      · intro last hlast
        exact hopen last (by simp [hlast])
      · rw [hmax]
        exact hcollects.pushes (routed reference [c])

/-- **Batches do not interfere.**  A close hands back what the lines of its own batch make, whatever
stands between them; an open is refused for no other reason than these; and a line comes back just
when it names no open batch. -/
theorem batches_do_not_interfere (batches : Batches) :
    (∀ (line : Message) (reference kind : Str) (cs : List Call) (last : Message),
      batches.Accepts line reference kind →
      (∀ earlier, .close earlier ∈ cs → marked '-' earlier ≠ some reference) →
      marked '-' last = some reference →
      (((batches.opened line).calls cs).close last).map Prod.snd =
        some (collected line kind (routed reference cs) batches.maxBuffered)) ∧
    (∀ line : Message, batches.opened line = batches ↔
      (marked '+' line = none ∨ line.param 1 = none ∨
        (∃ reference, marked '+' line = some reference ∧
          (batches.byReference[reference]?).isSome) ∨
        batches.maxOpen ≤ batches.byReference.size)) ∧
    ∀ line : Message, batches.route line = none ↔
      ∀ reference, line.tag "batch" = some reference → batches.byReference[reference]? = none := by
  refine ⟨?_, ?_, ?_⟩
  · intro line reference kind cs last h hopen hlast
    obtain ⟨batch, hbatch, hcollects, -⟩ := calls_collects h cs hopen
    rw [close_eq, hlast, Option.bind_some, hbatch, Option.map_some, Option.map_some,
      hcollects.closed]
  · intro line
    constructor
    · intro hsame
      by_contra hnone
      rw [not_or, not_or, not_or] at hnone
      obtain ⟨hmarked, hkind, hfree, hroom⟩ := hnone
      obtain ⟨reference, hreference⟩ := Option.ne_none_iff_exists'.mp hmarked
      obtain ⟨kind, hkind⟩ := Option.ne_none_iff_exists'.mp hkind
      have hempty : batches.byReference[reference]? = none := by
        by_contra hopen
        exact hfree ⟨reference, hreference, Option.isSome_iff_ne_none.mpr hopen⟩
      have hcan : batches.Accepts line reference kind :=
        ⟨hreference, hkind, hempty, Nat.not_le.mp hroom⟩
      obtain ⟨batch, hbatch, -⟩ := calls_collects hcan [] (by simp)
      rw [show (batches.opened line).calls [] = batches.opened line from rfl, hsame,
        hempty] at hbatch
      cases hbatch
    · intro h
      rcases batches.opened_cases line with ⟨reference, kind, hcan, -⟩ | ⟨hsame, -⟩
      · obtain ⟨hmarked, hkind, hnone, hroom⟩ := hcan
        rcases h with h | h | ⟨other, hother, hisopen⟩ | h
        · rw [h] at hmarked
          cases hmarked
        · rw [h] at hkind
          cases hkind
        · rw [← Option.some.inj (hmarked.symm.trans hother), hnone] at hisopen
          cases hisopen
        · omega
      · exact hsame
  · intro line
    rw [route_eq]
    generalize line.tag "batch" = tag
    cases tag with
    | none => simp
    | some reference => simp

end ObbyClient.Batches
