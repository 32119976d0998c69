import FlowPlan.Store.Statistics
import Mathlib

namespace FlowPlan

namespace RowCache

variable {c : RowCache} {now later : Nat} {key other : String × ContainerId} {rows : UInt64}
  {read : Except StatsError UInt64}

theorem lookup_keep : (c.keep now key rows).entries.lookup other =
    if other = key then some ⟨rows, now⟩ else c.entries.lookup other := by
  rw [keep, List.lookup_cons]
  split
  next h => rw [if_pos (beq_iff_eq.mp h)]
  next h =>
    have hne : other ≠ key := beq_eq_false_iff_ne.mp h
    rw [if_neg hne, lookup_others _ hne]

theorem fresh?_eq_some : c.fresh? now key = some rows ↔
    ∃ r, c.entries.lookup key = some r ∧ now - r.time < c.refresh ∧ r.rows = rows := by
  rw [fresh?, Option.bind_eq_bind, Option.bind_eq_some_iff]
  simp

theorem count_answer : (c.count now key read).1 = (c.fresh? now key).elim read .ok := by
  unfold count
  cases c.fresh? now key with
  | some rows => rfl
  | none => cases read <;> rfl

/-- What a query leaves behind: a count that was read, or nothing new. -/
inductive Leaves (c : RowCache) (now : Nat) (key : String × ContainerId)
    (read : Except StatsError UInt64) : RowCache → Prop where
  | kept {rows : UInt64} (fresh : c.fresh? now key = some rows) : Leaves c now key read c
  | taken {rows : UInt64} (stale : c.fresh? now key = none) (ok : read = .ok rows) :
      Leaves c now key read (c.keep now key rows)
  | failed {e : StatsError} (stale : c.fresh? now key = none) (error : read = .error e) :
      Leaves c now key read c

theorem leaves_count (c : RowCache) (now : Nat) (key : String × ContainerId)
    (read : Except StatsError UInt64) : Leaves c now key read (c.count now key read).2 := by
  unfold count
  cases h : c.fresh? now key with
  | some rows => exact .kept h
  | none =>
    cases hread : read with
    | ok rows => exact .taken h rfl
    | error e => exact .failed h rfl

theorem refresh_count : (c.count now key read).2.refresh = c.refresh := by
  have hleaves := leaves_count c now key read
  generalize (c.count now key read).2 = c' at hleaves ⊢
  cases hleaves <;> rfl

theorem lookup_count_of_ne (h : other ≠ key) :
    (c.count now key read).2.entries.lookup other = c.entries.lookup other := by
  have hleaves := leaves_count c now key read
  generalize (c.count now key read).2 = c' at hleaves ⊢
  cases hleaves with
  | kept fresh | failed stale error => rfl
  | taken stale ok => rw [lookup_keep, if_neg h]

/-- What a query leaves under its own key depends on what it found there. -/
theorem lookup_count_self : (c.count now key read).2.entries.lookup key =
    ((c.fresh? now key).elim (read.toOption.map fun rows => ⟨rows, now⟩) fun _ => none).or
      (c.entries.lookup key) := by
  have hleaves := leaves_count c now key read
  generalize (c.count now key read).2 = c' at hleaves ⊢
  cases hleaves with
  | kept fresh => rw [fresh]; rfl
  | taken stale ok => rw [stale, ok, lookup_keep, if_pos rfl]; rfl
  | failed stale error => rw [stale, error]; rfl

theorem fresh?_congr {c' : RowCache} (hrefresh : c.refresh = c'.refresh)
    (hlookup : c.entries.lookup key = c'.entries.lookup key) :
    c.fresh? now key = c'.fresh? now key := by
  rw [fresh?, fresh?, hrefresh, hlookup]

end RowCache

namespace Statistics

/-- What counts can come from: the rows that a source knows of a container when they are asked for,
and the end of all counts that were kept. -/
inductive Note where
  | asked (id : ContainerId) (answer : Except StatsError UInt64)
  | dropped

namespace Note

def isDropped : Note → Bool
  | .asked .. => false
  | .dropped => true

/-- The rows of a container, if they were asked for and are known. -/
def rows? (id : ContainerId) : Note → Option UInt64
  | .asked other (.ok rows) => if other = id then some rows else none
  | _ => none

end Note

/-- The rows of a container when they were first asked for and known, since all counts were
dropped. -/
def firstCount? (notes : List Note) (id : ContainerId) : Option UInt64 :=
  (notes.rtakeWhile fun note => !note.isDropped).findSome? (·.rows? id)

/-- The container whose rows an event asks for, with its number. -/
def asked? (s : Statistics) : Event → Option (ContainerId × Container)
  | .count _ ref => do
    let id ← (s.store.locate ref).toOption
    let c ← s.store.container? id
    pure (id, c)
  | _ => none

def note? (s : Statistics) : Event → Option Note
  | .invalidate => some .dropped
  | e => (s.asked? e).map fun (id, c) => .asked id (s.source id c)

def reply (s : Statistics) (e : Event) : Option (Except StatsError UInt64) := (s.perform e).1

def next (s : Statistics) (e : Event) : Statistics := (s.perform e).2

def after (s : Statistics) (events : List Event) : Statistics := events.foldl next s

/-- The notes of some events, each taken when the event happens. -/
def notes (s : Statistics) : List Event → List Note
  | [] => []
  | e :: rest => (s.note? e).toList ++ (s.next e).notes rest

def Event.time? : Event → Option Nat
  | .count now _ => some now
  | _ => none

/-- All times at which rows are asked for are in one interval. -/
def Within (start refresh : Nat) (events : List Event) : Prop :=
  ∀ e ∈ events, ∀ now ∈ e.time?, start ≤ now ∧ now < start + refresh

instance (start refresh : Nat) (events : List Event) : Decidable (Within start refresh events) :=
  inferInstanceAs (Decidable (∀ e ∈ events, ∀ now ∈ e.time?, start ≤ now ∧ now < start + refresh))

variable {s : Statistics} {e : Event} {events : List Event} {now start refresh : Nat}
  {ref : ContainerRef} {id : ContainerId} {c : Container} {notes : List Note} {note : Note}

@[simp] theorem firstCount?_dropped : firstCount? (notes ++ [.dropped]) = fun _ => none := by
  funext id
  rw [firstCount?, List.rtakeWhile_concat_neg _ _ _ (by simp [Note.isDropped])]
  rfl

theorem firstCount?_asked {answer : Except StatsError UInt64} {other : ContainerId} :
    firstCount? (notes ++ [.asked id answer]) other =
      (firstCount? notes other).or ((Note.asked id answer).rows? other) := by
  rw [firstCount?, List.rtakeWhile_concat_pos _ _ _ (by simp [Note.isDropped]),
    List.findSome?_append, firstCount?]
  simp

/-- A failure is no count. -/
theorem firstCount?_failed (error : StatsError) :
    firstCount? (notes ++ [.asked id (.error error)]) = firstCount? notes := by
  funext other
  rw [firstCount?_asked]
  exact Option.or_none

theorem firstCount?_again {answer : Except StatsError UInt64} {rows : UInt64}
    (h : firstCount? notes id = some rows) :
    firstCount? (notes ++ [.asked id answer]) = firstCount? notes := by
  funext other
  rw [firstCount?_asked]
  by_cases ho : other = id
  · rw [ho, h, Option.some_or]
  · have hnone : (Note.asked id answer).rows? other = none := by
      cases answer <;> simp [Note.rows?, Ne.symm ho]
    rw [hnone, Option.or_none]

theorem firstCount?_taken {rows : UInt64} (h : firstCount? notes id = none) :
    firstCount? (notes ++ [.asked id (.ok rows)]) =
      Function.update (firstCount? notes) id (some rows) := by
  funext other
  rw [firstCount?_asked, Note.rows?]
  by_cases ho : other = id
  · rw [ho, h, if_pos rfl, Option.none_or, Function.update_self]
  · rw [if_neg (Ne.symm ho), Option.or_none, Function.update_of_ne ho]

theorem note?_count : s.note? (.count now ref) =
    (s.asked? (.count now ref)).map fun (id, c) => .asked id (s.source id c) := rfl

theorem asked?_count : s.asked? (.count now ref) = some (id, c) ↔
    s.store.locate ref = .ok id ∧ s.store.container? id = some c := by
  simp only [asked?, Option.bind_eq_bind, Option.bind_eq_some_iff, Option.pure_def,
    Option.some.injEq, Prod.mk.injEq]
  constructor
  · rintro ⟨id', hid, c', hc, rfl, rfl⟩
    cases hl : s.store.locate ref with
    | error e => simp [hl, Except.toOption] at hid
    | ok found =>
      simp only [hl, Except.toOption, Option.some.injEq] at hid
      exact ⟨congrArg Except.ok hid, hc⟩
  · rintro ⟨hid, hc⟩
    exact ⟨id, by rw [hid]; rfl, c, hc, rfl, rfl⟩

theorem perform_count (h : s.asked? (.count now ref) = some (id, c)) :
    s.perform (.count now ref) =
      (some (s.cache.count now (c.name, id) (s.source id c)).1,
        { s with cache := (s.cache.count now (c.name, id) (s.source id c)).2 }) := by
  obtain ⟨hid, hc⟩ := asked?_count.mp h
  simp only [perform, hid, hc]

theorem next_count_of_none (h : s.asked? (.count now ref) = none) :
    s.next (.count now ref) = s := by
  rw [next, perform]
  cases hid : s.store.locate ref with
  | error e => rfl
  | ok id =>
    cases hc : s.store.container? id with
    | none => simp only [hc]
    | some c => cases h.symm.trans (asked?_count.mpr ⟨hid, hc⟩)

theorem reply_count (h : s.asked? (.count now ref) = some (id, c)) :
    s.reply (.count now ref) =
      some ((s.cache.fresh? now (c.name, id)).elim (s.source id c) .ok) := by
  rw [reply, perform_count h, RowCache.count_answer]

/-- What is kept of each container is its first count, and no count is older than some time. -/
structure Keeps (s : Statistics) (start : Nat) (first : ContainerId → Option UInt64) : Prop where
  counts : ∀ id c, s.store.container? id = some c →
    (s.cache.entries.lookup (c.name, id)).map (·.rows) = first id
  missing : ∀ id, s.store.container? id = none →
    first id = none ∧ ∀ name, s.cache.entries.lookup (name, id) = none
  times : ∀ key r, s.cache.entries.lookup key = some r → start ≤ r.time

theorem keeps_nothing (hs : s.cache.entries = []) (start : Nat) :
    s.Keeps start fun _ => none := by
  refine ⟨fun id c _ => ?_, fun id _ => ⟨rfl, fun name => ?_⟩, fun key r hr => ?_⟩
  · rw [hs]
    rfl
  · rw [hs]
    rfl
  · rw [hs] at hr
    cases hr

theorem refresh_next (s : Statistics) (e : Event) :
    (s.next e).cache.refresh = s.cache.refresh := by
  cases e with
  | count now ref =>
    cases h : s.asked? (.count now ref) with
    | none => rw [next_count_of_none h]
    | some found =>
      obtain ⟨id, c⟩ := found
      rw [next, perform_count h]
      exact RowCache.refresh_count
  | add | recount | register | revise | invalidate => rfl

namespace Keeps

variable {first : ContainerId → Option UInt64}

theorem fresh?_eq (hs : s.Keeps start first) (hc : s.store.container? id = some c)
    (hfrom : start ≤ now) (hto : now < start + s.cache.refresh) :
    s.cache.fresh? now (c.name, id) = first id := by
  rw [← hs.counts id c hc]
  refine Option.ext fun rows => ?_
  rw [Option.map_eq_some_iff, RowCache.fresh?_eq_some]
  refine exists_congr fun r => and_congr_right fun hr => and_iff_right ?_
  have := hs.times _ r hr
  omega

theorem keep (hs : s.Keeps start first) (hc : s.store.container? id = some c) (hfrom : start ≤ now)
    (rows : UInt64) : Keeps { s with cache := s.cache.keep now (c.name, id) rows } start
      (Function.update first id (some rows)) := by
  refine ⟨fun other c' hc' => ?_, fun other hnone => ?_, fun key r hr => ?_⟩
  · rw [RowCache.lookup_keep]
    by_cases ho : other = id
    · subst ho
      cases hc.symm.trans hc'
      rw [if_pos rfl, Function.update_self]
      rfl
    · rw [if_neg (fun he => ho (congrArg Prod.snd he)), Function.update_of_ne ho]
      exact hs.counts other c' hc'
  · have ho : other ≠ id := by
      rintro rfl
      cases hc.symm.trans hnone
    obtain ⟨hfirst, hlookup⟩ := hs.missing other hnone
    refine ⟨by rw [Function.update_of_ne ho, hfirst], fun name => ?_⟩
    rw [RowCache.lookup_keep, if_neg (fun he => ho (congrArg Prod.snd he)), hlookup]
  · rw [RowCache.lookup_keep] at hr
    split at hr
    · cases hr
      exact hfrom
    · exact hs.times key r hr

theorem count (hs : s.Keeps start (firstCount? notes))
    (h : s.asked? (.count now ref) = some (id, c))
    (hfrom : start ≤ now) (hto : now < start + s.cache.refresh) :
    (s.next (.count now ref)).Keeps start
      (firstCount? (notes ++ [.asked id (s.source id c)])) := by
  obtain ⟨-, hc⟩ := asked?_count.mp h
  have hfresh := hs.fresh?_eq hc hfrom hto
  have hleaves := RowCache.leaves_count s.cache now (c.name, id) (s.source id c)
  rw [next, perform_count h]
  generalize (s.cache.count now (c.name, id) (s.source id c)).2 = cache at hleaves ⊢
  cases hleaves with
  | kept fresh =>
    rw [firstCount?_again (hfresh.symm.trans fresh)]
    exact hs
  | taken stale ok =>
    rw [ok, firstCount?_taken (hfresh.symm.trans stale)]
    exact hs.keep hc hfrom _
  | failed stale error =>
    rw [error, firstCount?_failed]
    exact hs

/-- A new container has no count yet, as its number is new. -/
theorem add (hs : s.Keeps start first) (container : Container) :
    (s.next (.add container)).Keeps start first := by
  refine ⟨fun id c hc => ?_, fun id hnone => hs.missing id ?_, hs.times⟩
  · rcases List.getElem?_eq_some_iff.mp hc with ⟨hid, -⟩
    by_cases hold : id < s.store.containers.length
    · refine hs.counts id c (Eq.trans ?_ hc)
      exact (List.getElem?_append_left hold).symm
    · obtain ⟨hfirst, hlookup⟩ :=
        hs.missing id (List.getElem?_eq_none (Nat.le_of_not_lt hold))
      rw [hfirst]
      exact congrArg _ (hlookup c.name)
  · have hlen := List.getElem?_eq_none_iff.mp hnone
    refine List.getElem?_eq_none ?_
    simp only [next, perform, Store.add, List.length_append] at hlen
    omega

/-- A container keeps its name whatever becomes of its entries. -/
theorem recount (hs : s.Keeps start first) (id : ContainerId) (change : Counter → Counter) :
    (s.next (.recount id change)).Keeps start first := by
  have hcontainer : ∀ other, (s.store.recount id change).container? other =
      (s.store.container? other).map fun c => if id = other then c.recount change else c :=
    fun other => List.getElem?_modify ..
  refine ⟨fun other c hc => ?_, fun other hnone => hs.missing other ?_, hs.times⟩
  · obtain ⟨before, hbefore, rfl⟩ := Option.map_eq_some_iff.mp ((hcontainer other).symm.trans hc)
    have hname : (if id = other then before.recount change else before).name = before.name := by
      split <;> rfl
    rw [hname]
    exact hs.counts other before hbefore
  · exact Option.map_eq_none_iff.mp ((hcontainer other).symm.trans hnone)

theorem register (hs : s.Keeps start first) (id : ContainerId) :
    (s.next (.register id)).Keeps start first := by
  rw [Statistics.next, perform, Store.register]
  split <;> exact ⟨hs.counts, hs.missing, hs.times⟩

/-- An event keeps the counts in step with the notes. -/
theorem next (hs : s.Keeps start (firstCount? notes)) (e : Event)
    (hwithin : ∀ now ∈ e.time?, start ≤ now ∧ now < start + s.cache.refresh) :
    (s.next e).Keeps start (firstCount? (notes ++ (s.note? e).toList)) := by
  cases e with
  | add container => simpa [note?, asked?] using hs.add container
  | recount id change => simpa [note?, asked?] using hs.recount id change
  | register id => simpa [note?, asked?] using hs.register id
  | revise source => simpa [note?, asked?] using ⟨hs.counts, hs.missing, hs.times⟩
  | invalidate => simpa [note?] using keeps_nothing rfl start
  | count now ref =>
    obtain ⟨hfrom, hto⟩ := hwithin now rfl
    cases h : s.asked? (.count now ref) with
    | none =>
      rw [next_count_of_none h, note?_count, h]
      simpa using hs
    | some found =>
      obtain ⟨id, c⟩ := found
      rw [note?_count, h]
      exact hs.count h hfrom hto

end Keeps

theorem notes_concat (s : Statistics) (events : List Event) (e : Event) :
    s.notes (events ++ [e]) = s.notes events ++ ((s.after events).note? e).toList := by
  induction events generalizing s with
  | nil => simp [Statistics.notes, after]
  | cons first rest ih =>
    simp only [List.cons_append, Statistics.notes, ih, List.append_assoc]
    rfl

theorem after_concat (s : Statistics) (events : List Event) (e : Event) :
    s.after (events ++ [e]) = (s.after events).next e := by
  rw [after, List.foldl_append]
  rfl

theorem refresh_after (s : Statistics) (events : List Event) :
    (s.after events).cache.refresh = s.cache.refresh := by
  induction events generalizing s with
  | nil => rfl
  | cons e rest ih => exact (ih (s.next e)).trans (refresh_next s e)

theorem Within.of_concat (h : Within start refresh (events ++ [e])) :
    Within start refresh events ∧ ∀ now ∈ e.time?, start ≤ now ∧ now < start + refresh := by
  rw [Within, List.forall_mem_append, List.forall_mem_singleton] at h
  exact h

/-- By induction on the events from the last one back, as the notes are taken in their order. -/
theorem keeps_after (hs : s.cache.entries = []) (h : Within start s.cache.refresh events) :
    (s.after events).Keeps start (firstCount? (s.notes events)) := by
  induction events using List.reverseRecOn with
  | nil => exact keeps_nothing hs start
  | append_singleton before e ih =>
    obtain ⟨hbefore, hlast⟩ := h.of_concat
    rw [after_concat, notes_concat]
    refine (ih hbefore).next e ?_
    rwa [refresh_after]

/-- Two states that differ in nothing but the counts of one container. -/
structure AlikeOff (id : ContainerId) (s s' : Statistics) : Prop where
  store : s.store = s'.store
  source : s.source = s'.source
  refresh : s.cache.refresh = s'.cache.refresh
  lookup : ∀ name other, other ≠ id →
    s.cache.entries.lookup (name, other) = s'.cache.entries.lookup (name, other)

theorem alikeOff_count (h : s.asked? (.count now ref) = some (id, c)) :
    (s.next (.count now ref)).AlikeOff id s := by
  rw [next, perform_count h]
  exact ⟨rfl, rfl, RowCache.refresh_count, fun name other ho =>
    RowCache.lookup_count_of_ne fun he => ho (congrArg Prod.snd he)⟩

namespace AlikeOff

variable {s' : Statistics} {other : ContainerId}

theorem asked?_eq (h : s.AlikeOff id s') (e : Event) : s.asked? e = s'.asked? e := by
  cases e <;> simp only [asked?, h.store]

theorem fresh?_eq (h : s.AlikeOff id s') (ho : other ≠ id) (name : String) :
    s.cache.fresh? now (name, other) = s'.cache.fresh? now (name, other) :=
  RowCache.fresh?_congr h.refresh (h.lookup name other ho)

theorem count (h : s.AlikeOff id s') (now : Nat) (ref : ContainerRef) :
    (s.next (.count now ref)).AlikeOff id (s'.next (.count now ref)) := by
  cases ha : s.asked? (.count now ref) with
  | none => rwa [next_count_of_none ha, next_count_of_none ((h.asked?_eq _).symm.trans ha)]
  | some found =>
    obtain ⟨asked, c⟩ := found
    rw [next, next, perform_count ha, perform_count ((h.asked?_eq _).symm.trans ha), h.source]
    refine ⟨h.store, rfl, ?_, fun name other ho => ?_⟩
    · rw [RowCache.refresh_count, RowCache.refresh_count, h.refresh]
    · by_cases hkey : (name, other) = (c.name, asked)
      · cases hkey
        rw [RowCache.lookup_count_self, RowCache.lookup_count_self, h.fresh?_eq ho,
          h.lookup _ _ ho]
      · rw [RowCache.lookup_count_of_ne hkey, RowCache.lookup_count_of_ne hkey, h.lookup _ _ ho]

theorem next (h : s.AlikeOff id s') (e : Event) : (s.next e).AlikeOff id (s'.next e) := by
  cases e with
  | add | recount | register =>
    exact ⟨by simp only [Statistics.next, perform, h.store], h.source, h.refresh, h.lookup⟩
  | revise => exact ⟨h.store, rfl, h.refresh, h.lookup⟩
  | count now ref => exact h.count now ref
  | invalidate => exact ⟨h.store, h.source, h.refresh, fun _ _ _ => rfl⟩

theorem after (h : s.AlikeOff id s') (events : List Event) :
    (s.after events).AlikeOff id (s'.after events) := by
  induction events generalizing s s' with
  | nil => exact h
  | cons e rest ih => exact ih (h.next e)

theorem reply_eq (h : s.AlikeOff id s') (ha : s.asked? (.count now ref) = some (other, c))
    (ho : other ≠ id) : s.reply (.count now ref) = s'.reply (.count now ref) := by
  rw [reply_count ha, reply_count ((h.asked?_eq _).symm.trans ha), h.fresh?_eq ho, h.source]

end AlikeOff

/-- A failure is the source's, and leaves nothing behind. -/
theorem next_of_reply_error (h : s.asked? (.count now ref) = some (id, c)) {error : StatsError}
    (he : s.reply (.count now ref) = some (.error error)) :
    s.source id c = .error error ∧ s.next (.count now ref) = s := by
  have hleaves := RowCache.leaves_count s.cache now (c.name, id) (s.source id c)
  rw [reply_count h, Option.some.injEq] at he
  rw [next, perform_count h]
  generalize (s.cache.count now (c.name, id) (s.source id c)).2 = cache at hleaves ⊢
  cases hleaves with
  | kept fresh => rw [fresh] at he; cases he
  | taken stale ok => rw [stale, ok] at he; cases he
  | failed stale error' => rw [stale] at he; exact ⟨he, rfl⟩

theorem reply_of_refresh_zero (h : s.asked? (.count now ref) = some (id, c))
    (hzero : s.cache.refresh = 0) : s.reply (.count now ref) = some (s.source id c) := by
  have hstale : s.cache.fresh? now (c.name, id) = none := by
    rw [Option.eq_none_iff_forall_ne_some]
    intro rows hrows
    obtain ⟨r, -, hlt, -⟩ := RowCache.fresh?_eq_some.mp hrows
    omega
  rw [reply_count h, hstale]
  rfl

/-- Whatever happens within one refresh interval, a query gives the first count of its container
since all counts were dropped, or what the source says now if there was none. A query is never
noticed by whoever asks for another container, now or later; one that fails gives the failure of the
source and changes nothing. Where counts are stale at once, every query gives what the source says
now. -/
theorem first_count_served (hs : s.cache.entries = []) :
    (∀ start events now ref id c, Within start s.cache.refresh (events ++ [.count now ref]) →
      (s.after events).asked? (.count now ref) = some (id, c) →
      (s.after events).reply (.count now ref) =
        some ((firstCount? (s.notes events) id).elim ((s.after events).source id c) .ok)) ∧
    (∀ before now ref id c, (s.after before).asked? (.count now ref) = some (id, c) →
      ∀ events later ref' other c',
        ((s.after before).after events).asked? (.count later ref') = some (other, c') →
        other ≠ id →
        (((s.after before).next (.count now ref)).after events).reply (.count later ref') =
          ((s.after before).after events).reply (.count later ref')) ∧
    (∀ events now ref id c error, (s.after events).asked? (.count now ref) = some (id, c) →
      (s.after events).reply (.count now ref) = some (.error error) →
      (s.after events).source id c = .error error ∧
        (s.after events).next (.count now ref) = s.after events) ∧
    (s.cache.refresh = 0 → ∀ events now ref id c,
      (s.after events).asked? (.count now ref) = some (id, c) →
      (s.after events).reply (.count now ref) = some ((s.after events).source id c)) := by
  refine ⟨fun start events now ref id c hwithin h => ?_,
    fun before now ref id c h events later ref' other c' h' ho => ?_,
    fun events now ref id c error h he => next_of_reply_error h he,
    fun hzero events now ref id c h => reply_of_refresh_zero h ((refresh_after s events).trans hzero)⟩
  · obtain ⟨hbefore, hlast⟩ := hwithin.of_concat
    obtain ⟨hfrom, hto⟩ := hlast now rfl
    obtain ⟨-, hc⟩ := asked?_count.mp h
    rw [reply_count h, (keeps_after hs hbefore).fresh?_eq hc hfrom]
    rwa [refresh_after]
  · have halike := (alikeOff_count h).after events
    exact halike.reply_eq ((halike.asked?_eq _).trans h') ho

/-- Two containers of one name, the first of them in the catalog, and a queue. -/
def namesakes : Statistics where
  store := ⟨[.replicatedMap "items" 2, .replicatedMap "items" 9, ⟨"jobs", .queue, .uncounted⟩],
    [("items", 0)]⟩
  source := .counters
  cache := .empty 1000

/-- The first container is counted, then gets one more entry and loses its name. -/
def takeover : List Event :=
  [.count 5 (.named "items"), .recount 0 (.insert 0), .register 1]

/-- The container that lost its name keeps its count until all are dropped, and the one that took
the name over has its own. The queue has none, however often it is asked for. -/
theorem first_count_served_namesakes :
    (namesakes.after takeover).reply (.count 7 (.held 0)) = some (.ok 2) ∧
    (namesakes.after takeover).reply (.count 7 (.named "items")) = some (.ok 9) ∧
    (namesakes.after (takeover ++ [.invalidate])).reply (.count 8 (.held 0)) = some (.ok 3) ∧
    (namesakes.after takeover).next (.count 7 (.held 2)) = namesakes.after takeover := by
  obtain ⟨hfirst, -, hfailed, -⟩ := first_count_served (s := namesakes) rfl
  refine ⟨?_, ?_, ?_, ?_⟩
  · exact hfirst 0 takeover 7 (.held 0) 0 _ (by decide) rfl
  · exact hfirst 0 takeover 7 (.named "items") 1 _ (by decide) rfl
  · exact hfirst 0 (takeover ++ [.invalidate]) 8 (.held 0) 0 _ (by decide) rfl
  · exact (hfailed takeover 7 (.held 2) 2 _ (.unsized "jobs" .queue) rfl rfl).2

end Statistics

end FlowPlan
