import Mathlib.Data.List.AList
import Mathlib.Data.List.Induction

/-- Positions of a list by key. A later element with the same key replaces an earlier one, as
    assigning to a map in a loop does. -/
def List.indexFrom {α κ : Type} [DecidableEq κ] (key : α → κ) :
    Nat → List α → AList (fun _ : κ => Nat) → AList (fun _ : κ => Nat)
  | _, [], table => table
  | i, a :: rest, table => List.indexFrom key (i + 1) rest (table.insert (key a) i)

def List.indexBy {α κ : Type} [DecidableEq κ] (key : α → κ) (l : List α) : AList (fun _ : κ => Nat) :=
  List.indexFrom key 0 l ∅

def List.putBy {α κ : Type} [DecidableEq κ] (key : α → κ) (l : List α) (b : α) : List α :=
  match (l.indexBy key).lookup (key b) with
  | some i => l.set i b
  | none => l ++ [b]

def List.latestBy {α κ : Type} [DecidableEq κ] (key : α → κ) : List α → List α
  | [] => []
  | a :: rest => if key a ∈ rest.map key then List.latestBy key rest else a :: List.latestBy key rest

def List.staleBy {α κ : Type} [DecidableEq κ] (key : α → κ) : List α → List α
  | [] => []
  | a :: rest => if key a ∈ rest.map key then a :: List.staleBy key rest else List.staleBy key rest

namespace IndexBy

variable {α κ : Type} [DecidableEq κ] {key : α → κ}

theorem mem_indexFrom {k : κ} (l : List α) (n : Nat) (table : AList (fun _ : κ => Nat)) :
    k ∈ List.indexFrom key n l table ↔ k ∈ l.map key ∨ k ∈ table := by
  induction l generalizing n table with
  | nil => simp [List.indexFrom]
  | cons a rest ih =>
    rw [List.indexFrom, ih, AList.mem_insert, List.map_cons, List.mem_cons]
    tauto

theorem mem_indexBy {k : κ} {l : List α} : k ∈ l.indexBy key ↔ k ∈ l.map key := by
  simp [List.indexBy, mem_indexFrom]

theorem lookup_indexFrom {k : κ} {i : Nat} (l : List α) (n : Nat) (table : AList (fun _ : κ => Nat))
    (found : (List.indexFrom key n l table).lookup k = some i) :
    (∃ j a, i = n + j ∧ l[j]? = some a ∧ key a = k) ∨ (k ∉ l.map key ∧ table.lookup k = some i) := by
  induction l generalizing n table with
  | nil => exact .inr ⟨by simp, found⟩
  | cons a rest ih =>
    rcases ih (n + 1) _ found with ⟨j, b, position, at_j, same⟩ | ⟨absent, earlier⟩
    · exact .inl ⟨j + 1, b, by omega, by simpa using at_j, same⟩
    · by_cases same : k = key a
      · subst same
        rw [AList.lookup_insert] at earlier
        cases earlier
        exact .inl ⟨0, a, rfl, rfl, rfl⟩
      · rw [AList.lookup_insert_ne same] at earlier
        refine .inr ⟨?_, earlier⟩
        simp only [List.map_cons, List.mem_cons, not_or]
        exact ⟨same, absent⟩

theorem lookup_indexBy {k : κ} {i : Nat} {l : List α} (found : (l.indexBy key).lookup k = some i) :
    ∃ a, l[i]? = some a ∧ key a = k := by
  rcases lookup_indexFrom l 0 ∅ found with ⟨j, a, position, at_j, same⟩ | ⟨-, impossible⟩
  · obtain rfl : i = j := by omega
    exact ⟨a, at_j, same⟩
  · simp at impossible

theorem lookup_of_mem {k : κ} {l : List α} (member : k ∈ l.map key) :
    ∃ i a, (l.indexBy key).lookup k = some i ∧ l[i]? = some a ∧ key a = k := by
  obtain ⟨i, found⟩ := Option.isSome_iff_exists.mp (AList.lookup_isSome.mpr (mem_indexBy.mpr member))
  obtain ⟨a, at_i, same⟩ := lookup_indexBy found
  exact ⟨i, a, found, at_i, same⟩

theorem lookup_eq_none {k : κ} {l : List α} : (l.indexBy key).lookup k = none ↔ k ∉ l.map key := by
  rw [AList.lookup_eq_none, mem_indexBy]

omit [DecidableEq κ] in
theorem position_unique {l : List α} (unique : (l.map key).Nodup) {i j : Nat} {a b : α}
    (at_i : l[i]? = some a) (at_j : l[j]? = some b) (same : key a = key b) : i = j := by
  have image_i : (l.map key)[i]? = some (key a) := by simp [at_i]
  have image_j : (l.map key)[j]? = some (key a) := by simp [at_j, same]
  have bound : i < (l.map key).length := (List.getElem?_eq_some_iff.mp image_i).1
  exact (List.getElem?_inj bound unique).mp (image_i.trans image_j.symm)

/-- With distinct keys, writing through a looked-up position rewrites exactly the element with that key. -/
theorem modify_lookup {l : List α} (unique : (l.map key).Nodup) {k : κ} {i : Nat}
    (found : (l.indexBy key).lookup k = some i) (f : α → α) :
    l.modify i f = l.map fun a => if key a = k then f a else a := by
  obtain ⟨b, at_i, same⟩ := lookup_indexBy found
  apply List.ext_getElem?
  intro j
  rw [List.getElem?_modify, List.getElem?_map]
  cases at_j : l[j]? with
  | none => simp
  | some a =>
    by_cases equal : i = j
    · subst equal
      rw [at_i] at at_j
      cases at_j
      simp [same]
    · have different : key a ≠ k := fun h => equal (position_unique unique at_i at_j (same.trans h.symm))
      simp [equal, different]

theorem indexFrom_congr {l r : List α} (same : l.map key = r.map key) (n : Nat) (table : AList (fun _ : κ => Nat)) :
    List.indexFrom key n l table = List.indexFrom key n r table := by
  induction l generalizing r n table with
  | nil => rw [List.map_eq_nil_iff.mp same.symm]
  | cons a rest ih =>
    obtain ⟨b, tail, rfl, head, rest_same⟩ := List.map_eq_cons_iff.mp same.symm
    rw [List.indexFrom, List.indexFrom, head]
    exact ih rest_same.symm _ _

theorem indexBy_congr {l r : List α} (same : l.map key = r.map key) : l.indexBy key = r.indexBy key :=
  indexFrom_congr same 0 ∅

theorem indexFrom_append (l : List α) (b : α) (n : Nat) (table : AList (fun _ : κ => Nat)) :
    List.indexFrom key n (l ++ [b]) table = (List.indexFrom key n l table).insert (key b) (n + l.length) := by
  induction l generalizing n table with
  | nil => rfl
  | cons a rest ih =>
    rw [List.cons_append, List.indexFrom, List.indexFrom, ih, List.length_cons]
    congr 1
    omega

theorem indexBy_append (l : List α) (b : α) : (l ++ [b]).indexBy key = (l.indexBy key).insert (key b) l.length := by
  rw [List.indexBy, indexFrom_append, Nat.zero_add]
  rfl

theorem mem_latestBy {k : κ} {l : List α} : k ∈ (l.latestBy key).map key ↔ k ∈ l.map key := by
  induction l with
  | nil => simp [List.latestBy]
  | cons a rest ih =>
    unfold List.latestBy
    split
    · rename_i repeated
      rw [ih, List.map_cons, List.mem_cons]
      exact ⟨.inr, fun both => both.elim (fun same => same ▸ repeated) id⟩
    · rw [List.map_cons, List.map_cons, List.mem_cons, List.mem_cons, ih]

theorem latestBy_unique (key : α → κ) (l : List α) : ((l.latestBy key).map key).Nodup := by
  induction l with
  | nil => exact List.nodup_nil
  | cons a rest ih =>
    unfold List.latestBy
    split
    · exact ih
    · rename_i last
      rw [List.map_cons, List.nodup_cons, mem_latestBy]
      exact ⟨last, ih⟩

theorem mem_latest_or_stale (key : α → κ) {a : α} {l : List α} : a ∈ l ↔ a ∈ l.latestBy key ∨ a ∈ l.staleBy key := by
  induction l with
  | nil => simp [List.latestBy, List.staleBy]
  | cons b rest ih =>
    unfold List.latestBy List.staleBy
    split
    · rw [List.mem_cons, List.mem_cons, ih]
      tauto
    · rw [List.mem_cons, List.mem_cons, ih]
      tauto

theorem latestBy_of_unique {l : List α} (unique : (l.map key).Nodup) : l.latestBy key = l ∧ l.staleBy key = [] := by
  induction l with
  | nil => exact ⟨rfl, rfl⟩
  | cons a rest ih =>
    obtain ⟨last, unique⟩ := List.nodup_cons.mp unique
    obtain ⟨latest, stale⟩ := ih unique
    exact ⟨by rw [List.latestBy, if_neg last, latest], by rw [List.staleBy, if_neg last, stale]⟩

theorem latestBy_filter (key : α → κ) (keep : κ → Bool) (l : List α) :
    (l.filter fun a => keep (key a)).latestBy key = (l.latestBy key).filter fun a => keep (key a) := by
  induction l with
  | nil => rfl
  | cons a rest ih =>
    rw [List.filter_cons, List.latestBy]
    cases kept : keep (key a) with
    | true =>
      have keys : key a ∈ (rest.filter fun a => keep (key a)).map key ↔ key a ∈ rest.map key := by
        simp only [List.mem_map, List.mem_filter]
        constructor
        · rintro ⟨b, inside, same⟩
          exact ⟨b, inside.1, same⟩
        · rintro ⟨b, inside, same⟩
          exact ⟨b, ⟨inside, same ▸ kept⟩, same⟩
      simp only [if_true, List.latestBy, keys, ih]
      split
      · rfl
      · rw [List.filter_cons, kept, if_pos rfl]
    | false =>
      simp only [Bool.false_eq_true, if_false, ih]
      split
      · rfl
      · rw [List.filter_cons, kept, if_neg Bool.false_ne_true]

theorem latestBy_last {before after : List α} {a : α} (last : key a ∉ after.map key) :
    a ∈ (before ++ a :: after).latestBy key := by
  induction before with
  | nil =>
    rw [List.nil_append, List.latestBy, if_neg last]
    exact List.mem_cons_self
  | cons b rest ih =>
    rw [List.cons_append, List.latestBy]
    split
    · exact ih
    · exact List.mem_cons_of_mem _ ih

theorem lookup_split {k : κ} {i : Nat} {l : List α} (found : (l.indexBy key).lookup k = some i) :
    ∃ before a after, l = before ++ a :: after ∧ i = before.length ∧ key a = k ∧ k ∉ after.map key := by
  induction l using List.reverseRecOn with
  | nil => simp [List.indexBy, List.indexFrom] at found
  | append_singleton l b ih =>
    rw [indexBy_append] at found
    by_cases same : k = key b
    · subst same
      rw [AList.lookup_insert] at found
      exact ⟨l, b, [], rfl, (Option.some.inj found).symm, rfl, by simp⟩
    · rw [AList.lookup_insert_ne same] at found
      obtain ⟨before, a, after, rfl, position, named, last⟩ := ih found
      refine ⟨before, a, after ++ [b], by simp, position, named, ?_⟩
      simp only [List.map_append, List.map_singleton, List.mem_append, List.mem_singleton, not_or]
      exact ⟨last, same⟩

theorem lookup_latest {k : κ} {i : Nat} {l : List α} (found : (l.indexBy key).lookup k = some i) :
    ∃ a ∈ l.latestBy key, l[i]? = some a ∧ key a = k := by
  obtain ⟨before, a, after, rfl, rfl, rfl, last⟩ := lookup_split found
  exact ⟨a, latestBy_last last, by simp, rfl⟩

theorem putBy_cases (key : α → κ) (l : List α) (b : α) :
    (∃ before a after, l = before ++ a :: after ∧ l.putBy key b = before ++ b :: after ∧ key a = key b ∧
      key b ∉ after.map key) ∨ (key b ∉ l.map key ∧ l.putBy key b = l ++ [b]) := by
  unfold List.putBy
  cases found : (l.indexBy key).lookup (key b) with
  | some i =>
    obtain ⟨before, a, after, rfl, rfl, same, last⟩ := lookup_split found
    exact .inl ⟨before, a, after, rfl, by simp, same, last⟩
  | none => exact .inr ⟨lookup_eq_none.mp found, rfl⟩

/-- Seen through a function that tells the new element apart just as its key does, `putBy` keeps the list or extends it. -/
theorem map_putBy {β : Type} [DecidableEq β] (f : α → β) {l : List α} {b : α}
    (same : ∀ a ∈ l, key a = key b ↔ f a = f b) :
    (l.putBy key b).map f = if f b ∈ l.map f then l.map f else l.map f ++ [f b] := by
  rcases putBy_cases key l b with ⟨before, a, after, rfl, put, equal, -⟩ | ⟨absent, put⟩
  · have image : f a = f b := (same a (by simp)).mp equal
    rw [put, if_pos (by simp [image])]
    simp [image]
  · have new : f b ∉ l.map f := by
      intro present
      obtain ⟨a, inside, image⟩ := List.mem_map.mp present
      exact absent ((same a inside).mpr image ▸ List.mem_map_of_mem inside)
    rw [put, if_neg new, List.map_append, List.map_singleton]

theorem keys_putBy (l : List α) (b : α) :
    (l.putBy key b).map key = if key b ∈ l.map key then l.map key else l.map key ++ [key b] :=
  map_putBy key fun _ _ => Iff.rfl

theorem putBy_unique {l : List α} (unique : (l.map key).Nodup) (b : α) : ((l.putBy key b).map key).Nodup := by
  rw [keys_putBy]
  split
  · exact unique
  · rename_i absent
    refine List.nodup_append.mpr ⟨unique, List.nodup_singleton _, ?_⟩
    rintro a old other new rfl
    rw [List.mem_singleton.mp new] at old
    exact absent old

theorem indexBy_putBy (l : List α) (b : α) :
    (l.putBy key b).indexBy key =
      if key b ∈ l.map key then l.indexBy key else (l.indexBy key).insert (key b) l.length := by
  split
  · rename_i present
    apply indexBy_congr
    rw [keys_putBy, if_pos present]
  · rename_i absent
    rw [← indexBy_append]
    apply indexBy_congr
    rw [keys_putBy, if_neg absent, List.map_append, List.map_singleton]

theorem staleBy_append_congr {left right : List α} (keys : left.map key = right.map key)
    (same : left.staleBy key = right.staleBy key) (before : List α) :
    (before ++ left).staleBy key = (before ++ right).staleBy key := by
  -- What comes before does not change which element of a tail is the last of its key.
  induction before with
  | nil => exact same
  | cons a rest ih =>
    have tail : (rest ++ left).map key = (rest ++ right).map key := by rw [List.map_append, List.map_append, keys]
    rw [List.cons_append, List.cons_append, List.staleBy, List.staleBy, ih, tail]

theorem staleBy_append_new {l : List α} {b : α} (absent : key b ∉ l.map key) :
    (l ++ [b]).staleBy key = l.staleBy key := by
  induction l with
  | nil => simp [List.staleBy]
  | cons a rest ih =>
    rw [List.map_cons, List.mem_cons, not_or] at absent
    have keys : key a ∈ (rest ++ [b]).map key ↔ key a ∈ rest.map key := by
      simp [Ne.symm absent.1]
    rw [List.cons_append, List.staleBy, List.staleBy, ih absent.2]
    simp only [keys]

theorem staleBy_putBy (l : List α) (b : α) : (l.putBy key b).staleBy key = l.staleBy key := by
  rcases putBy_cases key l b with ⟨before, a, after, rfl, put, same, last⟩ | ⟨absent, put⟩
  · rw [put]
    apply staleBy_append_congr
    · rw [List.map_cons, List.map_cons, same]
    · rw [List.staleBy, if_neg last, List.staleBy, if_neg (same ▸ last)]
  · rw [put, staleBy_append_new absent]

theorem mem_latestBy_replace {before after : List α} {a b c : α} (same : key a = key b)
    (last : key b ∉ after.map key) :
    c ∈ (before ++ b :: after).latestBy key ↔ c = b ∨ (c ∈ (before ++ a :: after).latestBy key ∧ key c ≠ key b) := by
  induction before with
  | nil =>
    rw [List.nil_append, List.nil_append, List.latestBy, if_neg last, List.latestBy, if_neg (same ▸ last),
      List.mem_cons, List.mem_cons]
    constructor
    · rintro (rfl | inside)
      · exact .inl rfl
      · refine .inr ⟨.inr inside, fun keys => last ?_⟩
        exact keys ▸ mem_latestBy.mp (List.mem_map_of_mem inside)
    · rintro (rfl | ⟨rfl | inside, other⟩)
      · exact .inl rfl
      · exact absurd same other
      · exact .inr inside
  | cons d rest ih =>
    have keys : (rest ++ b :: after).map key = (rest ++ a :: after).map key := by simp [same]
    rw [List.cons_append, List.cons_append, List.latestBy, List.latestBy, keys]
    split
    · exact ih
    · rename_i lastOfKey
      have different : key d ≠ key b := by
        intro equal
        exact lastOfKey (by simp [equal, same])
      rw [List.mem_cons, List.mem_cons, ih]
      constructor
      · rintro (rfl | rfl | both)
        · exact .inr ⟨.inl rfl, different⟩
        · exact .inl rfl
        · exact .inr ⟨.inr both.1, both.2⟩
      · rintro (rfl | ⟨rfl | inside, other⟩)
        · exact .inr (.inl rfl)
        · exact .inl rfl
        · exact .inr (.inr ⟨inside, other⟩)

theorem mem_latestBy_append_new {l : List α} {b c : α} (absent : key b ∉ l.map key) :
    c ∈ (l ++ [b]).latestBy key ↔ c ∈ l.latestBy key ∨ c = b := by
  induction l with
  | nil => simp [List.latestBy]
  | cons a rest ih =>
    rw [List.map_cons, List.mem_cons, not_or] at absent
    have keys : key a ∈ (rest ++ [b]).map key ↔ key a ∈ rest.map key := by
      simp [Ne.symm absent.1]
    rw [List.cons_append, List.latestBy, List.latestBy]
    simp only [keys]
    split
    · exact ih absent.2
    · rw [List.mem_cons, List.mem_cons, ih absent.2, or_assoc]

theorem mem_latestBy_putBy {l : List α} {b c : α} :
    c ∈ (l.putBy key b).latestBy key ↔ c = b ∨ (c ∈ l.latestBy key ∧ key c ≠ key b) := by
  rcases putBy_cases key l b with ⟨before, a, after, rfl, put, same, last⟩ | ⟨absent, put⟩
  · rw [put]
    exact mem_latestBy_replace same last
  · rw [put, mem_latestBy_append_new absent]
    constructor
    · rintro (inside | rfl)
      · refine .inr ⟨inside, fun equal => absent ?_⟩
        exact equal ▸ mem_latestBy.mp (List.mem_map_of_mem inside)
      · exact .inl rfl
    · rintro (rfl | ⟨inside, -⟩)
      · exact .inr rfl
      · exact .inl inside

theorem putBy_same {l : List α} {b : α} (member : b ∈ l.latestBy key) : l.putBy key b = l := by
  rcases putBy_cases key l b with ⟨before, a, after, rfl, put, same, last⟩ | ⟨absent, -⟩
  · have latest : a ∈ (before ++ a :: after).latestBy key := latestBy_last (same ▸ last)
    rw [put, List.inj_on_of_nodup_map (latestBy_unique key _) latest member same]
  · exact absurd (mem_latestBy.mp (List.mem_map_of_mem member)) absent

end IndexBy
