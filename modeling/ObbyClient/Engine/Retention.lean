import ObbyClient.Lib.TopKeys
import ObbyClient.Engine.Model

/-!
# What a message log keeps

A log drops its oldest messages when it holds too many, and an index of network ids is kept beside
the messages.

* `MessageLog.Indexed` — the index has exactly the ids of the messages held, each with its own key;
* `MessageLog.trim_messages` — trimming is `TopKeys.top`;
* `MessageLog.insertAll_converges` — what a log holds depends only on what it was offered.
-/

namespace ObbyClient.MessageLog

open Std (ExtTreeMap)
open TopKeys

/-! ### The id index -/

/-- The index has exactly the ids of the messages held, and leads from each to its own message. -/
def Indexed (log : MessageLog) : Prop :=
  ∀ (id : Str) (key : MessageKey),
    log.byMsgid[id]? = some key ↔
      ∃ message, log.messages[key]? = some message ∧ message.msgid = some id

theorem indexed_withRetention (retention : ℕ) : (withRetention retention).Indexed := by
  intro id key
  simp [withRetention]

theorem put_messages (log : MessageLog) (message : ChatMessage) (key : MessageKey) :
    (log.put message).messages[key]? =
      if message.key = key then some message else log.messages[key]? := by
  rw [put, ExtTreeMap.getElem?_insert]
  exact if_congr Std.LawfulEqOrd.compare_eq_iff_eq rfl rfl

theorem put_byMsgid (log : MessageLog) (message : ChatMessage) (id : Str) :
    (log.put message).byMsgid[id]? =
      if message.msgid = some id then some message.key else log.byMsgid[id]? := by
  cases hid : message.msgid with
  | none =>
      rw [put, hid, if_neg (by simp)]
      rfl
  | some own =>
      rw [put, hid]
      show (log.byMsgid.insert own message.key)[id]? = _
      rw [ExtTreeMap.getElem?_insert]
      refine if_congr (Std.LawfulEqOrd.compare_eq_iff_eq.trans ?_) rfl rfl
      rw [Option.some.injEq]

/-- A message that the index does not know, under a key that no other message has, keeps the index
exact. -/
theorem put_indexed {log : MessageLog} (h : log.Indexed) {message : ChatMessage}
    (hid : ∀ id, message.msgid = some id → log.byMsgid[id]? = none)
    (hkey : ∀ held, log.messages[message.key]? = some held → held = message) :
    (log.put message).Indexed := by
  intro id key
  rw [put_byMsgid, put_messages]
  by_cases hown : message.msgid = some id
  · rw [if_pos hown]
    by_cases hat : message.key = key
    · rw [if_pos hat, hat]
      exact ⟨fun _ => ⟨message, rfl, hown⟩, fun _ => rfl⟩
    · -- the id was unknown, so no message held had it
      rw [if_neg hat, Option.some.injEq, iff_false_left hat, ← h id key, hid id hown]
      simp
  · rw [if_neg hown, h id key]
    by_cases hat : message.key = key
    · subst hat
      rw [if_pos rfl]
      constructor
      · rintro ⟨held, hheld, hmsgid⟩
        rw [hkey held hheld] at hmsgid
        exact absurd hmsgid hown
      · rintro ⟨held, hheld, hmsgid⟩
        rw [Option.some.injEq] at hheld
        rw [← hheld] at hmsgid
        exact absurd hmsgid hown
    · rw [if_neg hat]

/-! ### Trimming -/

theorem dropOldest_messages (log : MessageLog) :
    log.dropOldest.messages = dropMin log.messages := by
  rw [dropOldest, dropMin]
  cases h : log.messages.toList.head? with
  | none => rw [minKey?_of_head?_none h]
  | some entry => rw [(minKey?_of_head? h).1]

theorem dropOldest_retention (log : MessageLog) : log.dropOldest.retention = log.retention := by
  rw [dropOldest]
  cases log.messages.toList.head? with
  | none => rfl
  | some entry => rfl

/-- The index forgets the id of the message dropped. -/
theorem dropOldest_indexed {log : MessageLog} (h : log.Indexed) : log.dropOldest.Indexed := by
  cases hhead : log.messages.toList.head? with
  | none =>
      rw [dropOldest, hhead]
      exact h
  | some entry =>
      obtain ⟨oldest, dropped⟩ := entry
      obtain ⟨hmin, hdropped⟩ := minKey?_of_head? hhead
      intro id key
      have hbyMsgid : log.dropOldest.byMsgid[id]? =
          if dropped.msgid = some id then none else log.byMsgid[id]? := by
        rw [dropOldest, hhead]
        show ((dropped.msgid.map log.byMsgid.erase).getD log.byMsgid)[id]? = _
        cases dropped.msgid with
        | none => rw [if_neg (by simp)]; rfl
        | some own =>
            show (log.byMsgid.erase own)[id]? = _
            rw [ExtTreeMap.getElem?_erase]
            refine if_congr (Std.LawfulEqOrd.compare_eq_iff_eq.trans ?_) rfl rfl
            rw [Option.some.injEq]
      have hmessages : log.dropOldest.messages[key]? =
          if oldest = key then none else log.messages[key]? := by
        rw [dropOldest_messages, dropMin_of_min hmin, ExtTreeMap.getElem?_erase]
        exact if_congr Std.LawfulEqOrd.compare_eq_iff_eq rfl rfl
      rw [hbyMsgid, hmessages]
      by_cases hown : dropped.msgid = some id
      · rw [if_pos hown]
        refine ⟨fun hn => absurd hn (by simp), ?_⟩
        rintro ⟨held, hheld, hmsgid⟩
        by_cases hat : oldest = key
        · rw [if_pos hat] at hheld
          exact absurd hheld (by simp)
        · -- two messages with one id would have one key
          rw [if_neg hat] at hheld
          have hone := (h id oldest).mpr ⟨dropped, hdropped, hown⟩
          have htwo := (h id key).mpr ⟨held, hheld, hmsgid⟩
          rw [hone, Option.some.injEq] at htwo
          exact absurd htwo hat
      · rw [if_neg hown, h id key]
        by_cases hat : oldest = key
        · rw [if_pos hat, ← hat, hdropped]
          simp [hown]
        · rw [if_neg hat]

theorem trim_go_eq (fuel : ℕ) (log : MessageLog) (h : log.messages.size ≤ fuel) :
    trim.go fuel log = dropOldest^[log.messages.size - log.retention] log := by
  induction fuel generalizing log with
  | zero =>
      rw [show log.messages.size - log.retention = 0 by omega]
      rfl
  | succ fuel ih =>
      rw [trim.go]
      by_cases hle : log.messages.size ≤ log.retention
      · rw [if_pos hle, Nat.sub_eq_zero_of_le hle]
        rfl
      · have hsize : log.dropOldest.messages.size = log.messages.size - 1 := by
          rw [dropOldest_messages, size_dropMin (by omega)]
        rw [if_neg hle, ih _ (by omega), dropOldest_retention, hsize,
          ← Function.iterate_succ_apply dropOldest]
        congr 1
        omega

/-- Trimming drops as many messages as there are too many. -/
theorem trim_eq (log : MessageLog) :
    log.trim = dropOldest^[log.messages.size - log.retention] log :=
  trim_go_eq _ log le_rfl

theorem iterate_dropOldest_messages (n : ℕ) (log : MessageLog) :
    (dropOldest^[n] log).messages = dropMin^[n] log.messages := by
  induction n generalizing log with
  | zero => rfl
  | succ n ih =>
      rw [Function.iterate_succ_apply, Function.iterate_succ_apply, ih, dropOldest_messages]

/-- **Trimming leaves the newest messages**, as many as the log keeps. -/
theorem trim_messages (log : MessageLog) :
    log.trim.messages = top log.retention log.messages := by
  rw [trim_eq, iterate_dropOldest_messages, top]

theorem trim_retention (log : MessageLog) : log.trim.retention = log.retention := by
  rw [trim_eq]
  generalize log.messages.size - log.retention = n
  induction n generalizing log with
  | zero => rfl
  | succ n ih => rw [Function.iterate_succ_apply, ih, dropOldest_retention]

theorem trim_indexed {log : MessageLog} (h : log.Indexed) : log.trim.Indexed := by
  rw [trim_eq]
  generalize log.messages.size - log.retention = n
  induction n generalizing log with
  | zero => exact h
  | succ n ih => exact ih (dropOldest_indexed h)

/-! ### Reading a log -/

theorem mem_iter {log : MessageLog} {message : ChatMessage} :
    message ∈ log.iter ↔ log.messages[message.key]? = some message := by
  rw [iter, List.mem_map]
  constructor
  · rintro ⟨⟨key, held⟩, hmem, rfl⟩
    have hheld := ExtTreeMap.mem_toList_iff_getElem?_eq_some.mp hmem
    rw [log.keyed key held hheld]
    exact hheld
  · intro h
    exact ⟨(message.key, message), ExtTreeMap.mem_toList_iff_getElem?_eq_some.mpr h, rfl⟩

/-- The messages are listed in the order of their keys. -/
theorem iter_sorted (log : MessageLog) :
    log.iter.Pairwise fun a b => compare a.key b.key = .lt := by
  have hkeys := log.messages.ordered_keys
  rw [← ExtTreeMap.map_fst_toList_eq_keys, List.pairwise_map] at hkeys
  rw [iter, List.pairwise_map]
  refine hkeys.imp_of_mem ?_
  rintro ⟨key, held⟩ ⟨key', held'⟩ hmem hmem' hlt
  rw [log.keyed key held (ExtTreeMap.mem_toList_iff_getElem?_eq_some.mp hmem),
    log.keyed key' held' (ExtTreeMap.mem_toList_iff_getElem?_eq_some.mp hmem')]
  exact hlt

theorem length_iter (log : MessageLog) : log.iter.length = log.messages.size := by
  rw [iter, List.length_map, ExtTreeMap.length_toList]

section Indexed

variable {log : MessageLog} (h : log.Indexed)
include h

theorem get_eq_some {id : Str} {message : ChatMessage} :
    log.get id = some message ↔ message ∈ log.iter ∧ message.msgid = some id := by
  rw [get, Option.bind_eq_some_iff, mem_iter]
  constructor
  · rintro ⟨key, hkey, hheld⟩
    obtain ⟨held, hheld', hmsgid⟩ := (h id key).mp hkey
    rw [hheld, Option.some.injEq] at hheld'
    rw [log.keyed key message hheld]
    exact ⟨hheld, hheld' ▸ hmsgid⟩
  · rintro ⟨hheld, hmsgid⟩
    exact ⟨message.key, (h id message.key).mpr ⟨message, hheld, hmsgid⟩, hheld⟩

theorem byMsgid_eq_some {id : Str} {key : MessageKey} :
    log.byMsgid[id]? = some key ↔
      ∃ message ∈ log.iter, message.msgid = some id ∧ message.key = key := by
  rw [h id key]
  constructor
  · rintro ⟨message, hheld, hmsgid⟩
    have hkey := log.keyed key message hheld
    exact ⟨message, mem_iter.mpr (hkey ▸ hheld), hmsgid, hkey⟩
  · rintro ⟨message, hmem, hmsgid, rfl⟩
    exact ⟨message, mem_iter.mp hmem, hmsgid⟩

theorem contains_iff {id : Str} :
    log.contains id = true ↔ ∃ message ∈ log.iter, message.msgid = some id := by
  rw [contains, ExtTreeMap.contains_eq_isSome_getElem?, Option.isSome_iff_exists]
  constructor
  · rintro ⟨key, hkey⟩
    obtain ⟨message, hmem, hmsgid, -⟩ := (byMsgid_eq_some h).mp hkey
    exact ⟨message, hmem, hmsgid⟩
  · rintro ⟨message, hmem, hmsgid⟩
    exact ⟨message.key, (byMsgid_eq_some h).mpr ⟨message, hmem, hmsgid, rfl⟩⟩

/-- A change by id reaches the message with that id, and no other. -/
theorem getByKey_modify (id : Str) (f : ChatMessage → ChatMessage)
    (hf : ∀ message, (f message).key = message.key) (key : MessageKey) :
    (log.modify id f hf).getByKey key =
      (log.getByKey key).map fun message =>
        if message.msgid = some id then f message else message := by
  rw [getByKey, getByKey, modify]
  cases hid : log.byMsgid[id]? with
  | none =>
      show log.messages[key]? = _
      cases hheld : log.messages[key]? with
      | none => rfl
      | some held =>
          have hne : ¬ held.msgid = some id := by
            intro hmsgid
            rw [(h id key).mpr ⟨held, hheld, hmsgid⟩] at hid
            exact absurd hid (by simp)
          rw [Option.map_some, if_neg hne]
  | some own =>
      show (log.messages.modify own f)[key]? = _
      rw [ExtTreeMap.getElem?_modify, if_congr Std.LawfulEqOrd.compare_eq_iff_eq rfl rfl]
      obtain ⟨held, hheld, hmsgid⟩ := (h id own).mp hid
      by_cases hat : own = key
      · rw [if_pos hat, ← hat, hheld, Option.map_some, Option.map_some, if_pos hmsgid]
      · rw [if_neg hat]
        cases hother : log.messages[key]? with
        | none => rfl
        | some other =>
            have hne : ¬ other.msgid = some id := by
              intro hmsgid'
              have hkey := (h id key).mpr ⟨other, hother, hmsgid'⟩
              rw [hid, Option.some.injEq] at hkey
              exact hat hkey
            rw [Option.map_some, if_neg hne]

end Indexed

/-! ### Insertion -/

theorem holds_eq_true_of_msgid {log : MessageLog} {message : ChatMessage} {id : Str}
    (hid : message.msgid = some id) :
    log.holds message = true ↔ log.byMsgid[id]?.isSome := by
  rw [holds, hid]
  show log.byMsgid.contains id = true ↔ _
  rw [ExtTreeMap.contains_eq_isSome_getElem?]

/-- The keys between the first of an instant and the first of the next.  There is no next instant
after the last one, so there are none in between. -/
theorem instant_iff (key : MessageKey) (timeMs : ℕ) :
    ((compare (⟨timeMs, 0⟩ : MessageKey) key).isLE &&
        (compare key ⟨satAdd64 timeMs 1, 0⟩).isLT) = true ↔
      key.timeMs = timeMs ∧ timeMs < u64Max := by
  have hfirst : (compare (⟨timeMs, 0⟩ : MessageKey) key).isLE = true ↔ timeMs ≤ key.timeMs := by
    show ((compare timeMs key.timeMs).then (compare 0 key.seq)).isLE = true ↔ _
    rcases lt_trichotomy timeMs key.timeMs with h | h | h
    · rw [compare_lt_iff_lt.mpr h]
      exact iff_of_true rfl h.le
    · rw [compare_eq_iff_eq.mpr h]
      refine iff_of_true ?_ h.le
      exact Nat.isLE_compare.mpr (Nat.zero_le _)
    · rw [compare_gt_iff_gt.mpr h]
      exact iff_of_false Bool.false_ne_true (Nat.not_le.mpr h)
  have hpast : (compare key ⟨satAdd64 timeMs 1, 0⟩).isLT = true ↔
      key.timeMs < satAdd64 timeMs 1 := by
    show ((compare key.timeMs (satAdd64 timeMs 1)).then (compare key.seq 0)).isLT = true ↔ _
    rcases lt_trichotomy key.timeMs (satAdd64 timeMs 1) with h | h | h
    · rw [compare_lt_iff_lt.mpr h]
      exact iff_of_true rfl h
    · rw [compare_eq_iff_eq.mpr h]
      refine iff_of_false ?_ (Nat.not_lt.mpr h.ge)
      show ¬ (compare key.seq 0).isLT = true
      rw [Ordering.isLT_iff_eq_lt, compare_lt_iff_lt]
      exact Nat.not_lt_zero _
    · rw [compare_gt_iff_gt.mpr h]
      exact iff_of_false Bool.false_ne_true (Nat.not_lt.mpr (Nat.le_of_lt h))
  rw [Bool.and_eq_true, hfirst, hpast]
  unfold satAdd64
  omega

/-- True when a message says again, at one instant, what another one said. -/
def Repeats (held message : ChatMessage) : Prop :=
  message.key.timeMs < u64Max ∧ held.key.timeMs = message.key.timeMs ∧
    held.sender = message.sender ∧ held.text = message.text ∧ held.kind = message.kind

instance (held message : ChatMessage) : Decidable (Repeats held message) :=
  inferInstanceAs (Decidable (_ ∧ _))

/-- A twin is a message held that this one repeats. -/
theorem hasTwin_iff {log : MessageLog} {message : ChatMessage} :
    log.hasTwin message = true ↔
      ∃ held : ChatMessage, log.messages[held.key]? = some held ∧ Repeats held message := by
  unfold hasTwin
  rw [List.any_eq_true]
  constructor
  · intro h
    obtain ⟨⟨key, held⟩, hmem, htwin⟩ := h
    have hheld := ExtTreeMap.mem_toList_iff_getElem?_eq_some.mp hmem
    have hkey := log.keyed key held hheld
    subst hkey
    rw [Bool.and_eq_true, instant_iff] at htwin
    obtain ⟨⟨htime, hlast⟩, hsame⟩ := htwin
    simp only [Bool.and_eq_true, beq_iff_eq] at hsame
    exact ⟨held, hheld, hlast, htime, hsame.1.1, hsame.1.2, hsame.2⟩
  · intro h
    obtain ⟨held, hheld, hlast, htime, hsender, htext, hkind⟩ := h
    refine ⟨(held.key, held), ExtTreeMap.mem_toList_iff_getElem?_eq_some.mpr hheld, ?_⟩
    rw [Bool.and_eq_true, instant_iff]
    refine ⟨⟨htime, hlast⟩, ?_⟩
    simp only [Bool.and_eq_true, beq_iff_eq]
    exact ⟨⟨hsender, htext⟩, hkind⟩

/-- A twin is a message held that has the time, the sender, the text and the kind. -/
theorem exists_of_hasTwin {log : MessageLog} {message : ChatMessage}
    (h : log.hasTwin message = true) :
    ∃ held : ChatMessage, log.messages[held.key]? = some held ∧
      held.key.timeMs = message.key.timeMs ∧ held.sender = message.sender ∧
      held.text = message.text ∧ held.kind = message.kind := by
  obtain ⟨held, hheld, -, hrepeats⟩ := hasTwin_iff.mp h
  exact ⟨held, hheld, hrepeats⟩

/-- Insertion of a message that is held leaves the log alone; of another one, it is put and the log
trimmed. -/
theorem insert_of_holds {log : MessageLog} {message : ChatMessage} (h : log.holds message = true) :
    log.insert message = (log, false) := by
  rw [insert, if_pos h]

theorem insert_of_not_holds {log : MessageLog} {message : ChatMessage}
    (h : log.holds message = false) : log.insert message = ((log.put message).trim, true) := by
  rw [insert, h]
  rfl

/-- Insert one message after the other. -/
def insertAll (log : MessageLog) (messages : List ChatMessage) : MessageLog :=
  messages.foldl (fun log message => (log.insert message).1) log

/-- Everything that was offered, with nothing dropped. -/
def offered (messages : List ChatMessage) : ExtTreeMap MessageKey ChatMessage :=
  messages.foldl (fun held message => held.insert message.key message) ∅

theorem offered_append (messages : List ChatMessage) (message : ChatMessage) :
    offered (messages ++ [message]) = (offered messages).insert message.key message := by
  rw [offered, List.foldl_append]
  rfl

/-- Messages that a log can tell apart: no two have one key or one id, and one without an id has the
time, the sender, the text and the kind of no other. -/
structure Separate (messages : Finset ChatMessage) : Prop where
  keys : ∀ a ∈ messages, ∀ b ∈ messages, a.key = b.key → a = b
  msgids : ∀ a ∈ messages, ∀ b ∈ messages, ∀ id,
    a.msgid = some id → b.msgid = some id → a = b
  twins : ∀ a ∈ messages, ∀ b ∈ messages, a.msgid = none → b.key.timeMs = a.key.timeMs →
    b.sender = a.sender → b.text = a.text → b.kind = a.kind → b = a

section Separate

variable {ms : Finset ChatMessage} (hms : Separate ms)
include hms

theorem offered_eq_some {messages : List ChatMessage} (hall : ∀ message ∈ messages, message ∈ ms)
    {key : MessageKey} {message : ChatMessage} :
    (offered messages)[key]? = some message ↔ message ∈ messages ∧ message.key = key := by
  induction messages using List.reverseRecOn with
  | nil => simp [offered]
  | append_singleton done last ih =>
      have hdone : ∀ message ∈ done, message ∈ ms :=
        fun m hm => hall m (List.mem_append_left _ hm)
      have hlast : last ∈ ms := hall last (List.mem_append_right _ (List.mem_singleton_self _))
      rw [offered_append, ExtTreeMap.getElem?_insert,
        if_congr Std.LawfulEqOrd.compare_eq_iff_eq rfl rfl]
      by_cases hkey : last.key = key
      · rw [if_pos hkey, Option.some.injEq]
        constructor
        · rintro rfl
          exact ⟨List.mem_append_right _ (List.mem_singleton_self _), hkey⟩
        · rintro ⟨hmem, hat⟩
          exact hms.keys last hlast message (hall message hmem) (hkey.trans hat.symm)
      · rw [if_neg hkey, ih hdone, List.mem_append, List.mem_singleton]
        constructor
        · rintro ⟨hmem, hat⟩
          exact ⟨.inl hmem, hat⟩
        · rintro ⟨hmem | rfl, hat⟩
          · exact ⟨hmem, hat⟩
          · exact absurd hat hkey

/-- The invariant of a log that was offered these messages. -/
def Converged (R : ℕ) (messages : List ChatMessage) (log : MessageLog) : Prop :=
  log.messages = top R (offered messages) ∧ log.retention = R ∧ log.Indexed

/-- One insertion keeps the invariant, whether the message is new, held, or was dropped before. -/
theorem insert_converged {R : ℕ} {done : List ChatMessage} {log : MessageLog}
    (h : Converged R done log) (hdone : ∀ message ∈ done, message ∈ ms)
    {message : ChatMessage} (hmessage : message ∈ ms) :
    Converged R (done ++ [message]) (log.insert message).1 := by
  obtain ⟨hheld, hretention, hindexed⟩ := h
  have hmem_done : ∀ held : ChatMessage,
      log.messages[held.key]? = some held → held ∈ done := by
    intro held hat
    rw [hheld, getElem?_top] at hat
    split at hat
    · exact ((offered_eq_some hms hdone).mp hat).1
    · exact absurd hat (by simp)
  cases hholds : log.holds message with
  | true =>
      -- only the message itself can have its id, or its content
      have hmem : message ∈ done := by
        cases hid : message.msgid with
        | some id =>
            obtain ⟨key, hkey⟩ :=
              Option.isSome_iff_exists.mp ((holds_eq_true_of_msgid hid).mp hholds)
            obtain ⟨held, hiter, hmsgid, -⟩ := (byMsgid_eq_some hindexed).mp hkey
            have hin := hmem_done held (mem_iter.mp hiter)
            rw [← hms.msgids held (hdone held hin) message hmessage id hmsgid hid]
            exact hin
        | none =>
            rw [holds, hid] at hholds
            obtain ⟨held, hat, htime, hsender, htext, hkind⟩ := exists_of_hasTwin hholds
            have hin := hmem_done held hat
            rw [← hms.twins message hmessage held (hdone held hin) hid htime hsender htext hkind]
            exact hin
      rw [insert_of_holds hholds]
      refine ⟨?_, hretention, hindexed⟩
      rw [hheld, offered_append]
      congr 1
      ext1 key
      rw [ExtTreeMap.getElem?_insert, if_congr Std.LawfulEqOrd.compare_eq_iff_eq rfl rfl]
      by_cases hkey : message.key = key
      · rw [if_pos hkey]
        exact (offered_eq_some hms hdone).mpr ⟨hmem, hkey⟩
      · rw [if_neg hkey]
  | false =>
      rw [insert_of_not_holds hholds]
      refine ⟨?_, ?_, trim_indexed (put_indexed hindexed ?_ ?_)⟩
      · rw [trim_messages, show (log.put message).retention = log.retention from rfl,
          show (log.put message).messages = log.messages.insert message.key message from rfl,
          hretention, hheld, top_insert_top, offered_append]
      · rw [trim_retention]
        exact hretention
      · intro id hid
        have hnot := mt (holds_eq_true_of_msgid hid).mpr (by rw [hholds]; decide)
        exact Option.not_isSome_iff_eq_none.mp hnot
      · intro held hat
        have hkey := log.keyed message.key held hat
        exact hms.keys held (hdone held (hmem_done held (by rw [hkey]; exact hat))) message
          hmessage hkey

theorem insertAll_converged {R : ℕ} (rest : List ChatMessage) {done : List ChatMessage}
    {log : MessageLog} (h : Converged R done log)
    (hall : ∀ message ∈ done ++ rest, message ∈ ms) :
    Converged R (done ++ rest) (log.insertAll rest) := by
  induction rest generalizing done log with
  | nil =>
      rw [List.append_nil]
      exact h
  | cons message rest ih =>
      rw [List.append_cons] at hall ⊢
      have hdone : ∀ m ∈ done, m ∈ ms := fun m hm => hall m (by simp [hm])
      exact ih (insert_converged hms h hdone (hall message (by simp))) hall

theorem keys_offered {messages : List ChatMessage} (hall : messages.toFinset = ms) :
    (offered messages).keys.toFinset = ms.image ChatMessage.key := by
  have hmem : ∀ message ∈ messages, message ∈ ms := by
    intro message h
    rw [← hall, List.mem_toFinset]
    exact h
  ext key
  rw [mem_toFinset_keys, ExtTreeMap.mem_iff_isSome_getElem?, Option.isSome_iff_exists,
    Finset.mem_image]
  constructor
  · rintro ⟨message, h⟩
    obtain ⟨hin, hkey⟩ := (offered_eq_some hms hmem).mp h
    exact ⟨message, hmem message hin, hkey⟩
  · rintro ⟨message, hin, hkey⟩
    rw [← hall, List.mem_toFinset] at hin
    exact ⟨message, (offered_eq_some hms hmem).mpr ⟨hin, hkey⟩⟩

theorem size_offered {messages : List ChatMessage} (hall : messages.toFinset = ms) :
    (offered messages).size = ms.card := by
  rw [← ExtTreeMap.length_keys, ← List.toFinset_card_of_nodup (ExtTreeMap.nodup_keys),
    keys_offered hms hall, Finset.card_image_of_injOn]
  exact fun a ha b hb => hms.keys a ha b hb

/-- The keys beyond one are those of the messages beyond it. -/
theorem newer_offered {messages : List ChatMessage} (hall : messages.toFinset = ms)
    (key : MessageKey) :
    newer (offered messages) key = (ms.filter fun b => compare key b.key = .lt).card := by
  rw [newer_eq_card, keys_offered hms hall, Finset.filter_image, Finset.card_image_of_injOn]
  intro a ha b hb
  exact hms.keys a (Finset.mem_filter.mp ha).1 b (Finset.mem_filter.mp hb).1

/-- Two orders of the same messages, with any repetitions, offer the same. -/
theorem offered_eq {messages messages' : List ChatMessage} (hall : messages.toFinset = ms)
    (hall' : messages'.toFinset = ms) : offered messages = offered messages' := by
  have hmem : ∀ {l : List ChatMessage}, l.toFinset = ms → ∀ message, message ∈ l ↔
      message ∈ ms := by
    intro l hl message
    rw [← hl, List.mem_toFinset]
  ext1 key
  apply Option.ext
  intro message
  rw [offered_eq_some hms fun m h => (hmem hall m).mp h,
    offered_eq_some hms fun m h => (hmem hall' m).mp h, hmem hall, hmem hall']

end Separate

/-- A log of the newest messages of a collection: which they are is what it holds, and its index. -/
theorem eq_of_converged {R : ℕ} {messages messages' : List ChatMessage} {log log' : MessageLog}
    (h : Converged R messages log) (h' : Converged R messages' log')
    (hoffered : offered messages = offered messages') : log = log' := by
  obtain ⟨hheld, hretention, hindexed⟩ := h
  obtain ⟨hheld', hretention', hindexed'⟩ := h'
  rw [← hoffered, ← hheld] at hheld'
  have hbyMsgid : log.byMsgid = log'.byMsgid := by
    ext1 id
    apply Option.ext
    intro key
    rw [hindexed id key, hindexed' id key, hheld']
  obtain ⟨messages, byMsgid, retention, keyed⟩ := log
  obtain ⟨messages', byMsgid', retention', keyed'⟩ := log'
  cases hheld'
  cases hbyMsgid
  rw [← hretention'] at hretention
  cases hretention
  rfl

/-- **A log converges.**  Offered the messages of a collection in any order, with any repetitions, a
log holds the newest of them, as many as it keeps, in the order of their keys; its index has exactly
their ids, each with its own key, so that lookups and changes by id reach what iteration shows; and
another order would have left the same log. -/
theorem insertAll_converges (R : ℕ) (hR : 1 ≤ R) (ms : Finset ChatMessage) (hms : Separate ms)
    (order : List ChatMessage) (horder : order.toFinset = ms) :
    let log := (withRetention R).insertAll order
    (∀ message, message ∈ log.iter ↔
      message ∈ ms ∧ (ms.filter fun b => compare message.key b.key = .lt).card < R) ∧
    log.iter.length = min R ms.card ∧
    log.iter.Pairwise (fun a b => compare a.key b.key = .lt) ∧
    (∀ id key, log.byMsgid[id]? = some key ↔
      ∃ message ∈ log.iter, message.msgid = some id ∧ message.key = key) ∧
    (∀ id message, log.get id = some message ↔ message ∈ log.iter ∧ message.msgid = some id) ∧
    (∀ id, log.contains id = true ↔ ∃ message ∈ log.iter, message.msgid = some id) ∧
    (∀ id f hf key, (log.modify id f hf).getByKey key =
      (log.getByKey key).map fun message =>
        if message.msgid = some id then f message else message) ∧
    ∀ order' : List ChatMessage, order'.toFinset = ms →
      (withRetention R).insertAll order' = log := by
  intro log
  have hmem : ∀ {l : List ChatMessage}, l.toFinset = ms → ∀ message ∈ l, message ∈ ms := by
    intro l hl message h
    rw [← hl, List.mem_toFinset]
    exact h
  have hempty : Converged R [] (withRetention R) := by
    refine ⟨?_, max_eq_left hR, indexed_withRetention R⟩
    exact (top_of_size_le (Nat.zero_le R)).symm
  have hconverged : ∀ l : List ChatMessage, l.toFinset = ms →
      Converged R l ((withRetention R).insertAll l) := fun l hl =>
    insertAll_converged hms l hempty (hmem hl)
  have hlog : Converged R order log := hconverged order horder
  refine ⟨fun message => ?_, ?_, log.iter_sorted, fun id key => byMsgid_eq_some hlog.2.2,
    fun id message => get_eq_some hlog.2.2, fun id => contains_iff hlog.2.2,
    fun id f hf key => getByKey_modify hlog.2.2 id f hf key, fun order' horder' => ?_⟩
  · rw [mem_iter, hlog.1, getElem?_top, newer_offered hms horder]
    by_cases hlt : (ms.filter fun b => compare message.key b.key = .lt).card < R
    · rw [if_pos hlt, and_iff_left hlt, offered_eq_some hms (hmem horder), and_iff_left rfl,
        ← horder, List.mem_toFinset]
    · rw [if_neg hlt]
      exact ⟨fun hn => absurd hn (by simp), fun hc => absurd hc.2 hlt⟩
  · rw [length_iter, hlog.1, size_top, size_offered hms horder]
  · exact eq_of_converged (hconverged order' horder') hlog (offered_eq hms horder' horder)

/-- Two messages a second apart, the older one offered again after it was dropped. -/
theorem insertAll_converges_two :
    let old := ChatMessage.new ⟨1000, 0⟩ "ana" .privmsg
    let new := { ChatMessage.new ⟨2000, 1⟩ "bea" .privmsg with msgid := some "x" }
    let log := (withRetention 1).insertAll [old, new, old]
    log.get "x" = some new ∧ (withRetention 1).insertAll [new, old] = log := by
  intro old new log
  have hms : Separate {old, new} := by
    refine ⟨by decide, fun a ha b hb id => ?_, by decide⟩
    rcases Finset.mem_insert.mp ha with rfl | ha
    · exact fun h => absurd h (by simp [old, ChatMessage.new])
    · rcases Finset.mem_insert.mp hb with rfl | hb
      · exact fun _ h => absurd h (by simp [old, ChatMessage.new])
      · rw [Finset.mem_singleton.mp ha, Finset.mem_singleton.mp hb]
        exact fun _ _ => rfl
  have hall := insertAll_converges 1 le_rfl {old, new} hms [old, new, old] (by decide)
  have hnew : new ∈ log.iter := (hall.1 new).mpr (by decide)
  exact ⟨(hall.2.2.2.2.1 "x" new).mpr ⟨hnew, rfl⟩,
    hall.2.2.2.2.2.2.2 [new, old] (by decide)⟩

end ObbyClient.MessageLog
