import FlowPlan.Json.Graph
import FlowPlan.Proofs.Decimals

namespace FlowPlan

namespace Text

theorem hexValue?_digitChar : ∀ k < 16, hexValue? (Nat.digitChar k) = some k := by decide

theorem hexNatural?_append {digits : List Char} {n k : Nat} {c : Char}
    (h : hexNatural? digits = some n) (hc : hexValue? c = some k) :
    hexNatural? (digits ++ [c]) = some (16 * n + k) := by
  rw [hexNatural?] at h
  simp [hexNatural?, List.foldlM_append, h, hc]

theorem hexNatural?_toDigits (n : Nat) : hexNatural? (Nat.toDigits 16 n) = some n := by
  induction n using Nat.strongRecOn with
  | ind n ih =>
    by_cases hn : n < 16
    · rw [Nat.toDigits_of_lt_base hn]
      simp [hexNatural?, hexValue?_digitChar n hn]
    · have hlast := hexValue?_digitChar (n % 16) (Nat.mod_lt n (by decide))
      rw [Nat.toDigits_of_base_le (by decide) (Nat.le_of_not_lt hn),
        hexNatural?_append (ih (n / 16) (by omega)) hlast]
      congr 1
      omega

/-- Zeros before the digits do not count. -/
theorem hexNatural?_zeros (k : Nat) (digits : List Char) :
    hexNatural? (List.replicate k '0' ++ digits) = hexNatural? digits := by
  have hzero : hexValue? '0' = some 0 := by decide
  induction k with
  | zero => rfl
  | succ k ih =>
    rw [hexNatural?] at ih ⊢
    rw [List.replicate_succ, List.cons_append, List.foldlM_cons, hzero]
    exact ih

theorem hexNatural?_hexOfNat (width n : Nat) : hexNatural? (hexOfNat width n) = some n := by
  rw [hexOfNat, hexNatural?_zeros, hexNatural?_toDigits]

theorem length_hexOfNat {width n : Nat} (hw : 0 < width) (h : n < 16 ^ width) :
    (hexOfNat width n).length = width := by
  have hlength := Nat.toDigits_length 16 n width hw h
  rw [hexOfNat, List.length_append, List.length_replicate]
  omega

/-- What is read as a number is all digits. -/
theorem isSome_hexValue? {digits : List Char} {n : Nat} (h : hexNatural? digits = some n) :
    ∀ c ∈ digits, (hexValue? c).isSome := by
  rw [hexNatural?] at h
  generalize 0 = start at h
  induction digits generalizing start with
  | nil => simp
  | cons d rest ih =>
    rw [List.foldlM_cons] at h
    obtain ⟨next, hnext, hrest⟩ := Option.bind_eq_some_iff.mp h
    obtain ⟨k, hk, -⟩ := Option.map_eq_some_iff.mp hnext
    rw [List.forall_mem_cons]
    exact ⟨by rw [hk]; rfl, ih next hrest⟩

end Text

/-- The places of the hyphens between the groups. -/
def hyphenPlaces : List Nat := [8, 13, 18, 23]

/-- The characters at all places but those of the hyphens, when the first has a given place. -/
def keptFrom (first : Nat) (text : List Char) : List Char :=
  ((text.zipIdx first).filter fun (_, i) => !hyphenPlaces.contains i).map Prod.fst

theorem keptFrom_append (first : Nat) (a b : List Char) :
    keptFrom first (a ++ b) = keptFrom first a ++ keptFrom (first + a.length) b := by
  simp only [keptFrom, List.zipIdx_append, List.filter_append, List.map_append]

theorem keptFrom_hyphen {first : Nat} (h : first ∈ hyphenPlaces) (text : List Char) :
    keptFrom first ('-' :: text) = keptFrom (first + 1) text := by
  simp [keptFrom, List.zipIdx_cons, h]

/-- A group between two hyphens stays as it is. -/
theorem keptFrom_group {first : Nat} {group : List Char}
    (h : ∀ i ∈ hyphenPlaces, i < first ∨ first + group.length ≤ i) :
    keptFrom first group = group := by
  rw [keptFrom, List.filter_eq_self.mpr, List.zipIdx_map_fst]
  rintro ⟨c, i⟩ hmem
  obtain ⟨hfirst, hlast, -⟩ := List.mem_zipIdx hmem
  have hi : i ∉ hyphenPlaces := fun hplace => by
    have := h i hplace
    omega
  simpa using hi

/-- Five groups with hyphens between them are read as the digits of all. -/
theorem graphIdDigits?_groups {a b c d e : List Char} (ha : a.length = 8) (hb : b.length = 4)
    (hc : c.length = 4) (hd : d.length = 4) (he : e.length = 12) :
    graphIdDigits? (a ++ '-' :: (b ++ '-' :: (c ++ '-' :: (d ++ '-' :: e)))) =
      some (a ++ (b ++ (c ++ (d ++ e)))) := by
  generalize htext : a ++ '-' :: (b ++ '-' :: (c ++ '-' :: (d ++ '-' :: e))) = text
  have hlength : text.length = 36 := by
    simp only [← htext, List.length_append, List.length_cons, ha, hb, hc, hd, he]
  have hhyphens : hyphenPlaces.all (fun i => text[i]? == some '-') = true := by
    simp [← htext, hyphenPlaces, List.getElem?_append, List.getElem?_cons, ha, hb, hc, hd]
  have hkept : keptFrom 0 text = a ++ (b ++ (c ++ (d ++ e))) := by
    rw [← htext, keptFrom_append, keptFrom_group (by simp [hyphenPlaces, ha]), ha,
      keptFrom_hyphen (by decide), keptFrom_append, keptFrom_group (by simp [hyphenPlaces, hb]), hb,
      keptFrom_hyphen (by decide), keptFrom_append, keptFrom_group (by simp [hyphenPlaces, hc]), hc,
      keptFrom_hyphen (by decide), keptFrom_append, keptFrom_group (by simp [hyphenPlaces, hd]), hd,
      keptFrom_hyphen (by decide), keptFrom_group (by simp [hyphenPlaces])]
  rw [graphIdDigits?, if_neg (by rw [hlength]; decide), if_pos]
  · exact congrArg some hkept
  · rw [hlength]
    exact hhyphens

theorem toList_graphIdText (id : GraphId) : (graphIdText id).toList =
    let all := Text.hexOfNat 32 id.toNat
    all.take 8 ++ '-' :: ((all.drop 8).take 4 ++ '-' :: ((all.drop 12).take 4 ++
      '-' :: ((all.drop 16).take 4 ++ '-' :: (all.drop 20).take 12))) := by
  simp [graphIdText, Text.joined]

/-- Text that starts with a digit has nothing around the number. -/
theorem graphIdBody_digit {text : String} {c : Char} {rest : List Char}
    (htext : text.toList = c :: rest) (hc : (Text.hexValue? c).isSome) :
    graphIdBody text = c :: rest := by
  have hbrace : c ≠ '\x7b' := by
    rintro rfl
    exact absurd hc (by decide)
  have hurn : c ≠ 'u' := by
    rintro rfl
    exact absurd hc (by decide)
  rw [graphIdBody, htext]
  split
  · next h => exact absurd (List.cons.inj h).1 hbrace
  · next h => exact absurd (List.cons.inj h).1 hurn
  · rfl

/-- The groups are all the digits. -/
theorem groups_append {all : List Char} (h : all.length = 32) :
    all.take 8 ++ ((all.drop 8).take 4 ++ ((all.drop 12).take 4 ++
      ((all.drop 16).take 4 ++ (all.drop 20).take 12))) = all := by
  have hgroup : ∀ first count, (all.drop first).take count ++ all.drop (first + count) =
      all.drop first := fun first count => by rw [← List.drop_drop, List.take_append_drop]
  have hlast : (all.drop 20).take 12 = all.drop 20 := List.take_of_length_le (by simp [h])
  rw [hlast, hgroup 16 4, hgroup 12 4, hgroup 8 4, List.take_append_drop]

/-- The number of a graph is read back from its text. -/
theorem graphIdOfText?_graphIdText (id : GraphId) : graphIdOfText? (graphIdText id) = some id := by
  have htext := toList_graphIdText id
  have hlength : (Text.hexOfNat 32 id.toNat).length = 32 :=
    Text.length_hexOfNat (by decide) (Nat.lt_of_lt_of_eq id.isLt (by decide))
  have hread := Text.hexNatural?_hexOfNat 32 id.toNat
  generalize Text.hexOfNat 32 id.toNat = all at htext hlength hread
  have hbody : graphIdBody (graphIdText id) = (graphIdText id).toList := by
    obtain ⟨c, rest, rfl⟩ := List.exists_cons_of_length_pos (l := all) (by omega)
    rw [htext]
    exact graphIdBody_digit htext (Text.isSome_hexValue? hread c List.mem_cons_self)
  have hdigits : graphIdDigits? (graphIdText id).toList = some all := by
    rw [htext, graphIdDigits?_groups, groups_append hlength] <;> simp [hlength]
  rw [graphIdOfText?, hbody, hdigits, Option.bind_eq_bind, Option.bind_some, hread,
    Option.bind_eq_bind, Option.bind_some, BitVec.ofNat_toNat, BitVec.setWidth_eq]
  rfl

end FlowPlan
