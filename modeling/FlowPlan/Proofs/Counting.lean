import FlowPlan.Store.Change
import Mathlib

namespace FlowPlan.Counter

theorem toNat_foldl_add (words : List UInt64) (start : UInt64) :
    (words.foldl (· + ·) start).toNat = (start.toNat + (words.map UInt64.toNat).sum) % 2 ^ 64 := by
  induction words generalizing start with
  | nil => simp [Nat.mod_eq_of_lt start.toNat_lt]
  | cons w rest ih =>
    rw [List.foldl_cons, ih, UInt64.toNat_add, Nat.mod_add_mod, List.map_cons, List.sum_cons,
      Nat.add_assoc]

/-- The counters of so many partitions say how many entries each of them has. -/
structure Counts (counts : Array UInt64) (partitions : Nat) (entries : Nat → Nat) : Prop where
  size : counts.size = partitions
  exact : ∀ i (h : i < counts.size), counts[i].toNat = entries i

namespace Counts

variable {counts : Array UInt64} {partitions : Nat} {entries : Nat → Nat}

theorem sum_toNat (h : Counts counts partitions entries) :
    (counts.toList.map UInt64.toNat).sum = ∑ i ∈ Finset.range partitions, entries i := by
  have hlist : counts.toList.map UInt64.toNat = (List.range partitions).map entries := by
    apply List.ext_getElem
    · simp [h.size]
    · intro i hi _
      simpa using h.exact i (by simpa using hi)
  rw [hlist]
  rfl

/-- The sum is exact when it can be counted in 64 bits. -/
theorem toNat_sum (h : Counts counts partitions entries)
    (hlt : ∑ i ∈ Finset.range partitions, entries i < 2 ^ 64) :
    (sum counts).toNat = ∑ i ∈ Finset.range partitions, entries i := by
  rw [sum, ← Array.foldl_toList, toNat_foldl_add, h.sum_toNat, UInt64.toNat_zero, Nat.zero_add,
    Nat.mod_eq_of_lt hlt]

end Counts

/-- The entries of partition `i` when all are spread as evenly as can be. -/
def share (partitions entries i : Nat) : Nat :=
  entries / partitions + if i < entries % partitions then 1 else 0

theorem share_le_succ (partitions entries i j : Nat) :
    share partitions entries i ≤ share partitions entries j + 1 := by
  unfold share
  split <;> split <;> omega

theorem sum_share {partitions : Nat} (h : 0 < partitions) (entries : Nat) :
    ∑ i ∈ Finset.range partitions, share partitions entries i = entries := by
  have hrest : ∑ i ∈ Finset.range partitions, (if i < entries % partitions then 1 else 0) =
      entries % partitions := by
    have hfilter : (Finset.range partitions).filter (· < entries % partitions) =
        Finset.range (entries % partitions) := by
      ext i
      have := Nat.mod_lt entries h
      simp only [Finset.mem_filter, Finset.mem_range]
      omega
    rw [← Finset.sum_filter, hfilter, Finset.sum_const, Finset.card_range, smul_eq_mul, Nat.mul_one]
  simp only [share]
  rw [Finset.sum_add_distrib, hrest, Finset.sum_const, Finset.card_range, smul_eq_mul,
    Nat.div_add_mod]

theorem counts_spread {partitions : Nat} (h : 0 < partitions) (entries : UInt64) :
    Counts (spread partitions entries) partitions (share partitions entries.toNat) := by
  refine ⟨by simp [spread], fun i hi => ?_⟩
  have hi : i < partitions := by simpa [spread] using hi
  have hle : share partitions entries.toNat i ≤ entries.toNat :=
    (Finset.single_le_sum (fun _ _ => Nat.zero_le _) (Finset.mem_range.mpr hi)).trans
      (sum_share h entries.toNat).le
  have hlt := hle.trans_lt entries.toNat_lt
  simpa [spread, share] using hlt

theorem Counts.even {counts : Array UInt64} {partitions entries : Nat}
    (h : Counts counts partitions (share partitions entries)) :
    ∀ m ∈ counts, ∀ n ∈ counts, m.toNat ≤ n.toNat + 1 := by
  intro m hm n hn
  obtain ⟨i, hi, rfl⟩ := Array.mem_iff_getElem.mp hm
  obtain ⟨j, hj, rfl⟩ := Array.mem_iff_getElem.mp hn
  rw [h.exact i hi, h.exact j hj]
  exact share_le_succ partitions entries i j

theorem sum_spread {partitions : Nat} (h : 0 < partitions) (entries : UInt64) :
    sum (spread partitions entries) = entries := by
  have hshares := sum_share h entries.toNat
  apply UInt64.toNat_inj.mp
  rw [(counts_spread h entries).toNat_sum (hshares.trans_lt entries.toNat_lt), hshares]

namespace Change

/-- How many entries there are after a change that concerns them. -/
def count : Change → Nat → Nat
  | .insert _, n => n + 1
  | .remove _, n => n - 1
  | .set _ entries, _ => entries.toNat

/-- What a change does to the counter of its partition. -/
def onWord : Change → UInt64 → UInt64
  | .insert _, n => n + 1
  | .remove _, n => if n = 0 then 0 else n - 1
  | .set _ entries, _ => entries

theorem toNat_onWord (change : Change) {word : UInt64} (h : change.count word.toNat < 2 ^ 64) :
    (change.onWord word).toNat = change.count word.toNat := by
  cases change with
  | insert partition =>
    rw [onWord, UInt64.toNat_add]
    exact Nat.mod_eq_of_lt h
  | remove partition =>
    simp only [onWord, count]
    split
    next hzero => simp [hzero]
    next hzero =>
      have hle : 1 ≤ word := by
        rw [UInt64.le_iff_toNat_le]
        exact Nat.one_le_iff_ne_zero.mpr fun h => hzero (UInt64.toNat_inj.mp h)
      rw [UInt64.toNat_sub_of_le _ _ hle]
      rfl
  | set partition entries => rfl

end Change

variable {counts : Array UInt64} {change : Change} {partitions : Nat}

theorem apply_partitions (counts : Array UInt64) (change : Change) :
    (Counter.partitions counts).apply change =
      .partitions (counts.modify (change.partition % counts.size) change.onWord) := by
  cases change <;> rfl

theorem apply_single (word : UInt64) (change : Change) :
    (Counter.single word).apply change = .single (change.onWord word) := by
  cases change <;> rfl

theorem after_concat (c : Counter) (changes : List Change) (change : Change) :
    c.after (changes ++ [change]) = (c.after changes).apply change := by
  rw [after, List.foldl_append]
  rfl

/-- Entries after some changes that all concern them. -/
def countAfter (start : Nat) (changes : List Change) : Nat :=
  changes.foldl (fun n change => change.count n) start

theorem countAfter_concat (start : Nat) (changes : List Change) (change : Change) :
    countAfter start (changes ++ [change]) = change.count (countAfter start changes) := by
  rw [countAfter, List.foldl_append]
  rfl

/-- The entries of partition `i` after some changes, of which only its own concern it. -/
def entriesAfter (partitions : Nat) (start : Nat → Nat) (changes : List Change) (i : Nat) : Nat :=
  countAfter (start i) (changes.filter fun change => change.partition % partitions = i)

theorem entriesAfter_concat (start : Nat → Nat) (changes : List Change) (i : Nat) :
    entriesAfter partitions start (changes ++ [change]) i =
      if change.partition % partitions = i then change.count (entriesAfter partitions start changes i)
      else entriesAfter partitions start changes i := by
  rw [entriesAfter, List.filter_append, List.filter_singleton]
  split
  next h => simp only [h, decide_true, cond_true, countAfter_concat, entriesAfter]
  next h => simp only [h, decide_false, cond_false, List.append_nil, entriesAfter]

/-- All entries after some changes. -/
def totalAfter (partitions : Nat) (start : Nat → Nat) (changes : List Change) : Nat :=
  ∑ i ∈ Finset.range partitions, entriesAfter partitions start changes i

/-- The numbers that are reached on the way can be counted in 64 bits. -/
def Bounded (reached : List Change → Nat) (changes : List Change) : Prop :=
  ∀ before, before <+: changes → reached before < 2 ^ 64

instance (reached : List Change → Nat) (changes : List Change) :
    Decidable (Bounded reached changes) :=
  decidable_of_iff (∀ before ∈ changes.inits, reached before < 2 ^ 64) (by simp [Bounded])

theorem Bounded.of_concat {reached : List Change → Nat} {changes : List Change}
    (h : Bounded reached (changes ++ [change])) : Bounded reached changes :=
  fun before hb => h before (hb.trans (List.prefix_append _ _))

/-- One change leaves all counters exact. -/
theorem Counts.modify {start : Nat → Nat} {changes : List Change}
    (h : Counts counts partitions (entriesAfter partitions start changes))
    (hlt : totalAfter partitions start (changes ++ [change]) < 2 ^ 64) :
    Counts (counts.modify (change.partition % counts.size) change.onWord) partitions
      (entriesAfter partitions start (changes ++ [change])) := by
  obtain ⟨rfl, hexact⟩ := h
  refine ⟨Array.size_modify, fun i hi => ?_⟩
  rw [Array.size_modify] at hi
  rw [Array.getElem_modify, entriesAfter_concat]
  split
  next hown =>
    have hcount : change.count counts[i].toNat < 2 ^ 64 := by
      have hle := (Finset.single_le_sum (fun _ _ => Nat.zero_le _)
        (Finset.mem_range.mpr hi)).trans_lt hlt
      rwa [entriesAfter_concat, if_pos hown, ← hexact i hi] at hle
    rw [change.toNat_onWord hcount, hexact i hi]
  next => exact hexact i hi

/-- By induction on the changes from the last one back, since the numbers reached before it can be
counted too. -/
theorem after_partitions {start : Nat → Nat} (h : Counts counts partitions start)
    (changes : List Change) (hlt : Bounded (totalAfter partitions start) changes) :
    ∃ counts', (Counter.partitions counts).after changes = .partitions counts' ∧
      Counts counts' partitions (entriesAfter partitions start changes) := by
  induction changes using List.reverseRecOn with
  | nil => exact ⟨counts, rfl, h⟩
  | append_singleton before change ih =>
    obtain ⟨reached, hreached, hcounts⟩ := ih hlt.of_concat
    refine ⟨_, ?_, hcounts.modify (hlt _ (List.prefix_refl _))⟩
    rw [after_concat, hreached, apply_partitions]

theorem after_single (word : UInt64) (changes : List Change)
    (hlt : Bounded (countAfter word.toNat) changes) :
    ∃ word', (Counter.single word).after changes = .single word' ∧
      word'.toNat = countAfter word.toNat changes := by
  induction changes using List.reverseRecOn with
  | nil => exact ⟨word, rfl, rfl⟩
  | append_singleton before change ih =>
    obtain ⟨reached, hreached, hcount⟩ := ih hlt.of_concat
    have hlast := hlt _ (List.prefix_refl _)
    rw [countAfter_concat, ← hcount] at hlast
    refine ⟨change.onWord reached, ?_, ?_⟩
    · rw [after_concat, hreached, apply_single]
    · rw [change.toNat_onWord hlast, hcount, countAfter_concat]

/-- A change leaves the counters of all other partitions alone. -/
theorem apply_partitions_others (counts : Array UInt64) (change : Change) : ∃ counts',
    (Counter.partitions counts).apply change = .partitions counts' ∧ counts'.size = counts.size ∧
      ∀ i, i ≠ change.partition % counts.size → counts'[i]? = counts[i]? := by
  refine ⟨_, apply_partitions counts change, Array.size_modify, fun i hi => ?_⟩
  rw [Array.getElem?_modify, if_neg hi.symm]

/-- The size of a map is the number of its entries, counted exactly and for each partition alone, as
long as all of them together can be counted in 64 bits. No change of a partition shows in another
one. A map that counts in one number does so exactly as well. -/
theorem size_follows_entries (name : String) (partitions : Nat) (entries : UInt64)
    (changes : List Change) :
    (Bounded (totalAfter (max partitions 1) (share (max partitions 1) entries.toNat)) changes →
      ∃ counts size,
        (Container.partitionedMap name partitions entries).counter.after changes =
          .partitions counts ∧
        Counts counts (max partitions 1)
          (entriesAfter (max partitions 1) (share (max partitions 1) entries.toNat) changes) ∧
        (Counter.partitions counts).size? = some size ∧
        size.toNat =
          totalAfter (max partitions 1) (share (max partitions 1) entries.toNat) changes) ∧
    (Bounded (countAfter entries.toNat) changes →
      ∃ size, ((Container.replicatedMap name entries).counter.after changes).size? = some size ∧
        size.toNat = countAfter entries.toNat changes) ∧
    ∀ (counts : Array UInt64) (change : Change), ∃ counts',
      (Counter.partitions counts).apply change = .partitions counts' ∧
        counts'.size = counts.size ∧
        ∀ i, i ≠ change.partition % counts.size → counts'[i]? = counts[i]? := by
  refine ⟨fun hlt => ?_, fun hlt => ?_, apply_partitions_others⟩
  · have hstart := counts_spread (Nat.le_max_right partitions 1) entries
    obtain ⟨counts, hafter, hcounts⟩ := after_partitions hstart changes hlt
    exact ⟨counts, sum counts, hafter, hcounts, rfl,
      hcounts.toNat_sum (hlt changes (List.prefix_refl _))⟩
  · obtain ⟨size, hafter, hsize⟩ := after_single entries changes hlt
    exact ⟨size, congrArg size? hafter, hsize⟩

/-- An entry is put into the last of four partitions, and more are taken out of the first than it
has. The map that counts in one number is emptied twice. -/
theorem size_follows_entries_overdrawn :
    (∃ counts size,
      (Container.partitionedMap "orders" 4 10).counter.after
        [.insert 7, .remove 0, .remove 4, .remove 8, .remove 0] = .partitions counts ∧
      (Counter.partitions counts).size? = some size ∧ size.toNat = 8) ∧
    ∃ size, ((Container.replicatedMap "customers" 1).counter.after
        [.remove 0, .remove 0, .insert 0, .clear, .insert 0]).size? = some size ∧
      size.toNat = 1 := by
  obtain ⟨hpartitions, -, -⟩ := size_follows_entries "orders" 4 10
    [.insert 7, .remove 0, .remove 4, .remove 8, .remove 0]
  obtain ⟨-, hsingle, -⟩ := size_follows_entries "customers" 0 1
    [.remove 0, .remove 0, .insert 0, .clear, .insert 0]
  constructor
  · obtain ⟨counts, size, hafter, -, hsize, htotal⟩ := hpartitions (by decide +kernel)
    exact ⟨counts, size, hafter, hsize, htotal.trans (by decide +kernel)⟩
  · obtain ⟨size, hsize, hcount⟩ := hsingle (by decide +kernel)
    exact ⟨size, hsize, hcount.trans (by decide +kernel)⟩

end FlowPlan.Counter
