import ObbyClient.Engine.Logs
import ObbyClient.Lib.Newest

/-!
# What a log shows

Two clients are told of the same messages in different orders, one live and the other from history,
and each gives them numbers of its own.  What they show is the same all the same.

* `Post`, `MessageLog.shown` — what a message says, and what a log shows;
* `MessageLog.Orderly` — a log that is within its bounds, and holds one message of each time at
  most;
* `MessageLog.insert_shown` — insertion keeps the newest of what was shown and the new message;
* `MessageLog.modify_shown` — what is attached to a message later does not show.
-/

namespace ObbyClient

open Newest

/-- What a message says, whoever is told of it, when and how. -/
structure Post where
  msgid : Option Str
  timeMs : ℕ
  sender : Str
  kind : MessageKind
  text : Str
  account : Option Str
  replyTo : Option Str
  deriving DecidableEq

def ChatMessage.post (message : ChatMessage) : Post :=
  ⟨message.msgid, message.key.timeMs, message.sender, message.kind, message.text, message.account,
    message.replyTo⟩

theorem ChatMessage.Revised.post {before after : ChatMessage} (h : before.Revised after) :
    after.post = before.post := by
  rw [h.same]
  rfl

/-- Posts that a log can tell apart, by their ids and by their times. -/
structure Post.Distinct (posts : List Post) : Prop where
  times : ∀ p ∈ posts, ∀ q ∈ posts, p.timeMs = q.timeMs → p = q
  msgids : ∀ p ∈ posts, ∀ q ∈ posts, p.msgid.isSome = true → p.msgid = q.msgid → p = q
  /-- A post without an id is known by its time, which the last of all times does not allow. -/
  instants : ∀ p ∈ posts, p.msgid = none → p.timeMs < u64Max

theorem Post.Distinct.mono {posts more : List Post} (h : Post.Distinct more)
    (hsub : ∀ p ∈ posts, p ∈ more) :
    Post.Distinct posts where
  times p hp q hq := h.times p (hsub p hp) q (hsub q hq)
  msgids p hp q hq := h.msgids p (hsub p hp) q (hsub q hq)
  instants p hp := h.instants p (hsub p hp)

namespace MessageLog

/-- What a log shows, oldest first. -/
def shown (log : MessageLog) : List Post := log.iter.map ChatMessage.post

theorem mem_shown {log : MessageLog} {post : Post} : post ∈ log.shown ↔ ∃ message ∈ log.iter,
    message.post = post := by
  simp only [shown, List.mem_map]

/-- A log with an exact index, within its bounds, that holds one message of each time at most. -/
structure Orderly (log : MessageLog) : Prop where
  indexed : log.Indexed
  fits : log.messages.size ≤ log.retention
  apart : ∀ a ∈ log.iter, ∀ b ∈ log.iter, a.key.timeMs = b.key.timeMs → a = b

theorem Orderly.card_shown_le {log : MessageLog} (h : log.Orderly) :
    log.shown.toFinset.card ≤ log.retention := by
  have hle := log.shown.toFinset_card_le
  have hfits := h.fits
  have hlength : log.shown.length = log.messages.size := by rw [shown, List.length_map, length_iter]
  omega

theorem orderly_withRetention (retention : ℕ) : (withRetention retention).Orderly where
  indexed := indexed_withRetention retention
  fits := by simp [withRetention]
  apart := by simp [withRetention, iter]

/-! ### The order of time -/

section Apart

variable {log : MessageLog} (apart : ∀ a ∈ log.iter, ∀ b ∈ log.iter, a.key.timeMs = b.key.timeMs →
  a = b)
include apart

/-- Where all times are different, the order of the keys is that of time. -/
theorem lt_iff_of_apart {a b : ChatMessage} (ha : a ∈ log.iter) (hb : b ∈ log.iter) :
    compare a.key b.key = .lt ↔ a.key.timeMs < b.key.timeMs := by
  show (compare a.key.timeMs b.key.timeMs).then (compare a.key.seq b.key.seq) = .lt ↔ _
  obtain h | h | h := lt_trichotomy a.key.timeMs b.key.timeMs
  · simp [compare_lt_iff_lt.mpr h, h]
  · obtain rfl := apart a ha b hb h
    simp
  · simp [compare_gt_iff_gt.mpr h, h.le]

theorem shown_ordered : log.shown.Pairwise fun a b => a.timeMs < b.timeMs := by
  simp only [shown, List.pairwise_map]
  refine log.iter_sorted.imp_of_mem ?_
  intro a b ha hb hlt
  exact (lt_iff_of_apart apart ha hb).mp hlt

theorem nodup_shown : log.shown.Nodup := by
  refine (shown_ordered apart).imp ?_
  intro a b hlt heq
  exact absurd (congrArg Post.timeMs heq) (ne_of_lt hlt)

/-- As many keys are beyond one as posts are later. -/
theorem newer_eq_card_later {message : ChatMessage} (h : message ∈ log.iter) :
    TopKeys.newer log.messages message.key =
      (later Post.timeMs log.shown.toFinset message.post).card := by
  have hkeys : log.messages.keys = log.iter.map ChatMessage.key := by
    rw [← Std.ExtTreeMap.map_fst_toList_eq_keys, iter, List.map_map]
    refine List.map_congr_left ?_
    intro entry hentry
    exact (log.keyed entry.1 entry.2
      (Std.ExtTreeMap.mem_toList_iff_getElem?_eq_some.mp hentry)).symm
  have hlater : later Post.timeMs log.shown.toFinset message.post =
      (log.shown.filter fun post => message.post.timeMs < post.timeMs).toFinset := by
    ext post
    simp
  rw [hlater, List.toFinset_card_of_nodup ((nodup_shown apart).filter _),
    ← List.countP_eq_length_filter, TopKeys.newer, hkeys, shown, List.countP_map, List.countP_map]
  refine List.countP_congr ?_
  intro other hother
  simp only [Function.comp_apply, beq_iff_eq, decide_eq_true_eq]
  exact lt_iff_of_apart apart h hother

/-- **Trimming** keeps the newest of what was shown. -/
theorem trim_shown : log.trim.shown.toFinset =
    newest Post.timeMs log.retention log.shown.toFinset := by
  have hiter : ∀ message, message ∈ log.trim.iter ↔
      message ∈ log.iter ∧ TopKeys.newer log.messages message.key < log.retention := by
    intro message
    rw [mem_iter, mem_iter, trim_messages, TopKeys.getElem?_top]
    split <;> simp_all
  ext post
  simp only [List.mem_toFinset, mem_shown, mem_newest, hiter]
  constructor
  · rintro ⟨message, ⟨hmem, hnewer⟩, rfl⟩
    rw [newer_eq_card_later apart hmem] at hnewer
    exact ⟨⟨message, hmem, rfl⟩, hnewer⟩
  · rintro ⟨⟨message, hmem, rfl⟩, hlater⟩
    rw [← newer_eq_card_later apart hmem] at hlater
    exact ⟨message, ⟨hmem, hlater⟩, rfl⟩

end Apart

/-! ### Insertion -/

section Insert

variable {log : MessageLog} (h : log.Orderly) {message : ChatMessage}
  (hdistinct : Post.Distinct (message.post :: log.shown))
include h hdistinct

/-- What is held already is what is shown already. -/
theorem holds_iff : log.holds message = true ↔ message.post ∈ log.shown := by
  have hheld : ∀ held ∈ log.iter, held.post ∈ message.post :: log.shown := fun held hmem =>
    List.mem_cons_of_mem _ (mem_shown.mpr ⟨held, hmem, rfl⟩)
  cases hid : message.msgid with
  | some id =>
    rw [holds_eq_true_of_msgid hid, Option.isSome_iff_exists, mem_shown]
    constructor
    · rintro ⟨key, hkey⟩
      obtain ⟨held, hmem, hmsgid, -⟩ := (byMsgid_eq_some h.indexed).mp hkey
      have hsome : held.post.msgid.isSome = true := by simp [ChatMessage.post, hmsgid]
      have hsame : held.post.msgid = message.post.msgid := hmsgid.trans hid.symm
      exact ⟨held, hmem, hdistinct.msgids _ (hheld held hmem) _ List.mem_cons_self hsome hsame⟩
    · rintro ⟨held, hmem, hpost⟩
      have hmsgid : held.msgid = some id := (congrArg Post.msgid hpost).trans hid
      exact ⟨held.key, (byMsgid_eq_some h.indexed).mpr ⟨held, hmem, hmsgid, rfl⟩⟩
  | none =>
    rw [holds, hid, hasTwin_iff, mem_shown]
    constructor
    · rintro ⟨held, hheld', hrepeats⟩
      have hmem : held ∈ log.iter := mem_iter.mpr hheld'
      exact ⟨held, hmem, hdistinct.times _ (hheld held hmem) _ List.mem_cons_self hrepeats.2.1⟩
    · rintro ⟨held, hmem, hpost⟩
      refine ⟨held, mem_iter.mp hmem, hdistinct.instants _ List.mem_cons_self hid,
        congrArg Post.timeMs hpost, ?_⟩
      exact ⟨congrArg Post.sender hpost, congrArg Post.text hpost, congrArg Post.kind hpost⟩

/-- A message that is not held has a time of its own. -/
theorem fresh_of_not_holds (hnot : log.holds message = false) {held : ChatMessage}
    (hmem : held ∈ log.iter) :
    held.key.timeMs ≠ message.key.timeMs := by
  intro htime
  have hshown : held.post ∈ log.shown := mem_shown.mpr ⟨held, hmem, rfl⟩
  have hpost := hdistinct.times _ (List.mem_cons_of_mem _ hshown) _ List.mem_cons_self htime
  rw [hpost, ← holds_iff h hdistinct, hnot] at hshown
  cases hshown

theorem mem_put_iter (hnot : log.holds message = false) {other : ChatMessage} :
    other ∈ (log.put message).iter ↔ other = message ∨ other ∈ log.iter := by
  simp only [mem_iter, put_messages]
  by_cases hkey : message.key = other.key
  · have hfree : other ∉ log.iter := fun hmem =>
      fresh_of_not_holds h hdistinct hnot hmem (congrArg MessageKey.timeMs hkey.symm)
    simp only [hkey, if_true, Option.some.injEq]
    rw [mem_iter] at hfree
    simp [hfree, eq_comm]
  · have hne : other ≠ message := fun heq => hkey (congrArg ChatMessage.key heq).symm
    simp [hkey, hne]

theorem put_apart (hnot : log.holds message = false) :
    ∀ a ∈ (log.put message).iter, ∀ b ∈ (log.put message).iter, a.key.timeMs = b.key.timeMs →
      a = b := by
  intro a ha b hb htime
  obtain ha' | ha' := (mem_put_iter h hdistinct hnot).mp ha
  · obtain hb' | hb' := (mem_put_iter h hdistinct hnot).mp hb
    · rw [ha', hb']
    · rw [ha'] at htime
      exact absurd htime.symm (fresh_of_not_holds h hdistinct hnot hb')
  · obtain hb' | hb' := (mem_put_iter h hdistinct hnot).mp hb
    · rw [hb'] at htime
      exact absurd htime (fresh_of_not_holds h hdistinct hnot ha')
    · exact h.apart a ha' b hb' htime

omit h hdistinct in
theorem insert_retention (log : MessageLog) (message : ChatMessage) :
    (log.insert message).1.retention = log.retention := by
  cases hholds : log.holds message with
  | true => rw [insert_of_holds hholds]
  | false =>
    rw [insert_of_not_holds hholds, trim_retention]
    rfl

/-- **Insertion** keeps the newest of what was shown and the new post. -/
theorem insert_shown : (log.insert message).1.shown.toFinset =
    newest Post.timeMs log.retention (Insert.insert message.post log.shown.toFinset) := by
  cases hholds : log.holds message with
  | true =>
    have hmem := (holds_iff h hdistinct).mp hholds
    rw [insert_of_holds hholds, Finset.insert_eq_of_mem (List.mem_toFinset.mpr hmem),
      newest_of_card_le _ _ h.card_shown_le]
  | false =>
    have hput : (log.put message).shown.toFinset =
        Insert.insert message.post log.shown.toFinset := by
      ext post
      simp [mem_shown, mem_put_iter h hdistinct hholds]
      tauto
    rw [insert_of_not_holds hholds, trim_shown (put_apart h hdistinct hholds), hput]
    rfl

theorem Orderly.insert : (log.insert message).1.Orderly := by
  cases hholds : log.holds message with
  | true =>
    rw [insert_of_holds hholds]
    exact h
  | false =>
    rw [insert_of_not_holds hholds]
    constructor
    · refine trim_indexed (put_indexed h.indexed ?_ ?_)
      · intro id hid
        have hnone : ¬log.byMsgid[id]?.isSome :=
          mt (holds_eq_true_of_msgid hid).mpr (by simp [hholds])
        simpa using hnone
      · intro held hheld
        have hkey := log.keyed _ _ hheld
        have hmem : held ∈ log.iter := mem_iter.mpr (hkey ▸ hheld)
        exact absurd (congrArg MessageKey.timeMs hkey) (fresh_of_not_holds h hdistinct hholds hmem)
    · rw [trim_messages, trim_retention, TopKeys.size_top]
      exact min_le_left ..
    · intro a ha b hb htime
      have hsub : ∀ held ∈ (log.put message).trim.iter, held ∈ (log.put message).iter := by
        intro held hheld
        rw [mem_iter, trim_messages, TopKeys.getElem?_top] at hheld
        split at hheld
        · exact mem_iter.mpr hheld
        · cases hheld
      exact put_apart h hdistinct hholds a (hsub a ha) b (hsub b hb) htime

end Insert

/-! ### What is attached later -/

theorem Orderly.amends {log after : MessageLog} (h : log.Orderly) (hamends : log.Amends after) :
    after.Orderly where
  indexed := hamends.indexed h.indexed
  fits := by
    have hsize := hamends.size
    have hfits := h.fits
    rw [hamends.retention]
    omega
  apart := by
    intro a ha b hb htime
    have hold : ∀ message ∈ after.iter, ∃ old ∈ log.iter, old.key = message.key := by
      intro message hmem
      obtain ⟨old, hold, hrevised⟩ := hamends.held message.key message (mem_iter.mp hmem)
      have hkey := hrevised.key
      exact ⟨old, mem_iter.mpr (hkey ▸ hold), hkey.symm⟩
    obtain ⟨a', ha', hkey⟩ := hold a ha
    obtain ⟨b', hb', hkey'⟩ := hold b hb
    have hsame : a' = b' := h.apart a' ha' b' hb' (by rw [hkey, hkey', htime])
    have hkeys : a.key = b.key := by rw [← hkey, ← hkey', hsame]
    have hheld := mem_iter.mp ha
    rw [hkeys, mem_iter.mp hb] at hheld
    exact (Option.some.inj hheld).symm

section Modify

variable (log : MessageLog) (msgid : Str) (f : ChatMessage → ChatMessage)
  (hf : ∀ message, (f message).key = message.key)
  (hrevised : ∀ message : ChatMessage, message.Revised (f message))
include hrevised

theorem modify_shown : (log.modify msgid f hf).shown = log.shown := by
  have hshown : ∀ log : MessageLog, log.shown =
      (log.messages.map fun _ message => message.post).toList.map Prod.snd := by
    intro log
    simp [shown, iter, Std.ExtTreeMap.toList_map]
  rw [hshown, hshown]
  congr 2
  ext key : 1
  simp only [Std.ExtTreeMap.getElem?_map]
  unfold modify
  split
  · rfl
  · simp only [Maps.getElem?_modify_ite]
    split
    · rename_i heq
      simp [Function.comp_def, (hrevised _).post, heq]
    · rfl

/-- **What is attached to a message later** does not show. -/
theorem modify_orderly {log : MessageLog} (h : log.Orderly) : (log.modify msgid f hf).Orderly ∧
    (log.modify msgid f hf).retention = log.retention ∧
      (log.modify msgid f hf).shown.toFinset =
        newest Post.timeMs log.retention (log.shown.toFinset ∪ ∅) := by
  have hamends : log.Amends (log.modify msgid f hf) := .modify log msgid hrevised
  refine ⟨h.amends hamends, hamends.retention, ?_⟩
  rw [modify_shown log msgid f hf hrevised, Finset.union_empty,
    newest_of_card_le _ _ h.card_shown_le]

end Modify

end MessageLog

end ObbyClient
