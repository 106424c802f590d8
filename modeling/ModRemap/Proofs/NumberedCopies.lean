import Mathlib
import ModRemap.Proofs.MadeDirectories
import ModRemap.Proofs.TemporaryFiles

/-! Copies whose names end in numbers of six digits. The places that the names of one mod lead to form
a row: two rows are the same, or share no place. So a mod can give up a place that was meant for it to
another one of its row, and take the place that was meant for that one. -/

namespace ModRemap

def SixDigits (n : ℕ) : Prop := 100000 ≤ n ∧ n < 1000000

/-- The last part of a numbered name. -/
def numberedEnd (n : ℕ) : List Char := (toString n).toList ++ ".jar".toList

section

variable {m n : ℕ}

theorem SixDigits.length (six : SixDigits n) : (toString n).toList.length = 6 := by
  rw [Nat.toString_eq_repr, Nat.toList_repr]
  have most := (Nat.length_toDigits_le_iff (b := 10) (k := 6) (by decide) (by decide)).mpr six.2
  have least : ¬(Nat.toDigits 10 n).length ≤ 5 := fun few =>
    absurd ((Nat.length_toDigits_le_iff (by decide) (by decide)).mp few) (Nat.not_lt.mpr six.1)
  omega

theorem isAscii_of_mem_numberedEnd {c : Char} (member : c ∈ numberedEnd n) :
    c.isDigit = true ∨ c ∈ ".jar".toList := by
  refine (List.mem_append.mp member).imp_left fun digit => ?_
  rw [Nat.toString_eq_repr, Nat.toList_repr] at digit
  exact Nat.isDigit_of_mem_toDigits (by decide) (by decide) digit

theorem not_mem_numberedEnd {c : Char} (digit : c.isDigit = false) (other : c ∉ ".jar".toList) :
    c ∉ numberedEnd n := by
  intro member
  rcases isAscii_of_mem_numberedEnd member with h | h
  · exact nomatch digit.symm.trans h
  · exact other h

theorem length_encode_numberedEnd (six : SixDigits n) : (Utf8.encode (numberedEnd n)).length = 10 := by
  have one : ∀ c ∈ numberedEnd n, (String.utf8EncodeChar c).length = 1 := by
    intro c member
    rw [String.length_utf8EncodeChar, Char.utf8Size_eq_one_iff]
    rcases isAscii_of_mem_numberedEnd member with digit | jar
    · exact (Char.isDigit_iff_toNat.mp digit).2.trans (by decide : '9'.toNat ≤ 127)
    · have small : ∀ c ∈ ".jar".toList, c.toNat ≤ 127 := by simp
      exact small c jar
  have length : (numberedEnd n).length = 10 := by
    rw [numberedEnd, List.length_append, six.length]
    rfl
  rw [Utf8.encode, List.length_flatMap, List.map_congr_left one, List.map_const', List.sum_replicate,
    length]
  rfl

theorem numberedEnd_inj (six : SixDigits m) (six' : SixDigits n) {u v : List Char}
    (same : u ++ numberedEnd m = v ++ numberedEnd n) : u = v ∧ m = n := by
  have lengths : (numberedEnd m).length = (numberedEnd n).length := by
    rw [numberedEnd, numberedEnd, List.length_append, List.length_append, six.length, six'.length]
  obtain ⟨front, last⟩ := List.append_inj' same lengths
  have digits := String.toList_inj.mp (List.append_cancel_right last)
  exact ⟨front, Nat.repr_injective digits⟩

end

namespace Artifact

open Files

/-- The path of a copy. -/
def numbered (a : Artifact) (tmp : String) (n : ℕ) : String :=
  Path.join tmp (a.id ++ "-" ++ toString n ++ ".jar")

variable {a b : Artifact} {fs fs' T : Files} {tmp : String} {m n : ℕ} {p q : Place}

theorem toList_numbered (a : Artifact) (tmp : String) (n : ℕ) : (a.numbered tmp n).toList =
    (Path.join tmp (a.id ++ "-")).toList ++ numberedEnd n := by
  rw [numbered, String.append_assoc, Path.join_append tmp (stem_ne_empty a), String.toList_append,
    String.toList_append, numberedEnd]

theorem isPlain_numbered (a : Artifact) (tmp : String) (n : ℕ) : IsPlain (a.numbered tmp n) := by
  refine isPlain_of_jar (u := (Path.join tmp (a.id ++ "-")).toList ++ (toString n).toList) ?_
  rw [toList_numbered, numberedEnd, List.append_assoc]

theorem isPath_numbered (six : SixDigits m) (six' : SixDigits n) :
    isPath (a.numbered tmp m) = isPath (a.numbered tmp n) := by
  have zero (n : ℕ) : '\x00' ∉ numberedEnd n := not_mem_numberedEnd (by decide) (by decide)
  have bytes {n : ℕ} (six : SixDigits n) : (bytesOf (a.numbered tmp n)).length =
      (Utf8.encode (Path.join tmp (a.id ++ "-")).toList).length + 10 := by
    rw [bytesOf, toList_numbered, Utf8.encode, List.flatMap_append, List.length_append,
      ← length_encode_numberedEnd six]
    rfl
  have clear (n : ℕ) : (a.numbered tmp n).toList.contains '\x00' =
      (Path.join tmp (a.id ++ "-")).toList.contains '\x00' := by
    rw [Bool.eq_iff_iff, List.contains_iff_mem, List.contains_iff_mem, toList_numbered,
      List.mem_append, or_iff_left (zero n)]
  rw [isPath, isPath, bytes six, bytes six', clear, clear]

/-- One place of a row shows where all its places are. -/
theorem locate_numbered (six : SixDigits n) (found : T.locate (a.numbered tmp n) = .ok p) :
    ∃ directory last, ∀ m, SixDigits m → T.locate (a.numbered tmp m) =
      .ok (directory ++ [String.ofList (last ++ numberedEnd m)]) := by
  obtain ⟨front, last, spec⟩ := Path.steps_append (Path.join tmp (a.id ++ "-")).toList
  have steps (m : ℕ) : Path.steps (a.numbered tmp m) = front ++ [String.ofList (last ++ numberedEnd m)] := by
    refine spec _ _ (not_mem_numberedEnd (by decide) (by decide)) ?_ (toList_numbered a tmp m)
    exact List.append_ne_nil_of_right_ne_nil _ (by decide)
  obtain ⟨fits, relative, followed⟩ := (locate_eq_ok (isPlain_numbered a tmp n)).mp found
  rw [steps] at followed
  obtain ⟨directory, first, rest⟩ := follow_append.mp followed
  obtain ⟨here, allowed, _⟩ := follow_cons.mp rest
  have length (m : ℕ) (six : SixDigits m) : (bytesOf (String.ofList (last ++ numberedEnd m))).length =
      (Utf8.encode last).length + 10 := by
    rw [bytesOf, String.toList_ofList, Utf8.encode, List.flatMap_append, List.length_append,
      ← length_encode_numberedEnd six]
    rfl
  have long {m : ℕ} {s : String} (same : String.ofList (last ++ numberedEnd m) = s) :
      4 ≤ s.toList.length := by
    rw [← same, String.toList_ofList, numberedEnd, List.length_append, List.length_append,
      show ".jar".toList.length = 4 from rfl]
    omega
  have named {m : ℕ} {p : Place} : Allowed p (String.ofList (last ++ numberedEnd m)) ↔
      isNameable (String.ofList (last ++ numberedEnd m)) = true := by
    constructor
    · rintro (dot | ⟨dots, _⟩ | ⟨_, _, name⟩)
      · exact absurd (long dot) (by decide)
      · exact absurd (long dots) (by decide)
      · exact name
    · refine fun name => .inr (.inr ⟨fun dot => ?_, fun dots => ?_, name⟩)
      · exact absurd (long dot) (by decide)
      · exact absurd (long dots) (by decide)
  refine ⟨directory, last, fun m six' => (locate_eq_ok (isPlain_numbered a tmp m)).mpr ⟨?_, ?_, ?_⟩⟩
  · rw [isPath_numbered six' six, fits]
  · have stem (m : ℕ) : a.numbered tmp m = Path.join tmp (a.id ++ "-") ++ (toString m ++ ".jar") := by
      rw [numbered, String.append_assoc, Path.join_append tmp (stem_ne_empty a)]
    rw [stem, Path.isAbsolute_append (Path.join_ne_empty tmp (stem_ne_empty a))] at relative ⊢
    exact relative
  · rw [steps]
    refine follow_append.mpr ⟨directory, first, follow_cons.mpr ⟨here, named.mpr ?_, ?_⟩⟩
    · have name := named.mp allowed
      rw [isNameable, length _ six] at name
      rw [isNameable, length _ six', name]
    · rw [Path.next, if_neg fun dot => absurd (long dot) (by decide),
        if_neg fun dots => absurd (long dots) (by decide)]
      rfl

/-- Rows that share a place are the same. -/
theorem locate_numbered_eq (six : SixDigits m) (six' : SixDigits n)
    (found : T.locate (a.numbered tmp m) = .ok p) (found' : T.locate (b.numbered tmp n) = .ok p) :
    m = n ∧ ∀ k, SixDigits k → T.locate (a.numbered tmp k) = T.locate (b.numbered tmp k) := by
  obtain ⟨directory, last, spec⟩ := locate_numbered six found
  obtain ⟨directory', last', spec'⟩ := locate_numbered six' found'
  have same := Except.ok.inj (((spec m six).symm.trans found).trans (found'.symm.trans (spec' n six')))
  obtain ⟨rfl, names⟩ := List.append_inj' same rfl
  obtain ⟨rfl, rfl⟩ := numberedEnd_inj six six' (String.ofList_injective (List.head_eq_of_cons_eq names))
  exact ⟨rfl, fun k six => (spec k six).trans (spec' k six).symm⟩

/-- A place for a copy, where no directory will be: `full` has those that are made later, too. All that
can be met in front of it in its row is there already. -/
structure Slot (T : Files) (full : Set Place) (tmp : String) (a : Artifact) (p : Place) : Prop where
  outside : p ∉ full
  row : ∃ n, SixDigits n ∧ T.locate (a.numbered tmp n) = .ok p ∧ ∀ m q, SixDigits m → m < n →
    T.locate (a.numbered tmp m) = .ok q → q ∈ full → q ∈ T.directories

variable {full : Set Place}

/-- Who could be at one place of a row could be at another one. -/
theorem Slot.swap (slot : Slot T full tmp a p) (six : SixDigits n)
    (found : T.locate (a.numbered tmp n) = .ok q) (other : Slot T full tmp b q) :
    Slot T full tmp b p := by
  obtain ⟨k, six₁, located, before⟩ := slot.row
  obtain ⟨m, six₂, met, _⟩ := other.row
  obtain ⟨_, same⟩ := locate_numbered_eq six six₂ found met
  refine ⟨slot.outside, k, six₁, same k six₁ ▸ located, fun i r six₃ earlier there => ?_⟩
  exact before i r six₃ earlier ((same i six₃).trans there)

theorem directories_fill {target : String} (h : a.fill fs target = .ok fs') :
    fs'.directories = fs.directories := by
  obtain ⟨_, _, written⟩ := fill_eq_ok_iff.mp h
  exact directories_write written

/-- A number is free, and those before it are not. -/
def Free (fs : Files) (a : Artifact) (tmp : String) (n : ℕ) : Prop :=
  SixDigits n ∧ fs.exists? (a.numbered tmp n) = false ∧
    ∀ m, SixDigits m → m < n → fs.exists? (a.numbered tmp m) = true

theorem fresh_eq_ok {name : String} : fs.fresh tmp (a.id ++ "-") ".jar" = .ok name ↔
    ∃ n, Free fs a tmp n ∧ name = a.id ++ "-" ++ toString n ++ ".jar" := by
  rw [fresh, freeName_eq_ok]
  constructor
  · rintro ⟨i, few, rfl, free, before⟩
    refine ⟨100000 + i, ⟨⟨Nat.le_add_right .., by omega⟩, free, fun m six earlier => ?_⟩, rfl⟩
    have taken := before (m - 100000) (by have := six.1; omega)
    rwa [Nat.add_sub_cancel' six.1] at taken
  · rintro ⟨n, ⟨six, free, before⟩, rfl⟩
    have whole : 100000 + (n - 100000) = n := Nat.add_sub_cancel' six.1
    refine ⟨n - 100000, by have := six.2; omega, by rw [whole], free, fun j earlier => ?_⟩
    exact before (100000 + j) ⟨Nat.le_add_right .., by have := six.2; omega⟩ (by omega)

theorem exists_free (six : SixDigits n) (empty : fs.exists? (a.numbered tmp n) = false) :
    ∃ m ≤ n, Free fs a tmp m := by
  classical
  have some : ∃ m, SixDigits m ∧ fs.exists? (a.numbered tmp m) = false := ⟨n, six, empty⟩
  obtain ⟨six', free⟩ := Nat.find_spec some
  refine ⟨Nat.find some, Nat.find_min' some ⟨six, empty⟩, six', free, fun m six'' earlier => ?_⟩
  exact Bool.eq_true_of_not_eq_false fun free' => Nat.find_min some earlier ⟨six'', free'⟩

/-- A copy is at the first free place of its row. -/
theorem numbered_of_copy {target : String} (h : a.copyToTemporary fs tmp = (fs', .ok target)) :
    ∃ fs₁ n, fs.makeDirectories tmp = (fs₁, .ok ()) ∧ Free fs₁ a tmp n ∧ target = a.numbered tmp n ∧
      fs'.directories = fs₁.directories := by
  rw [← copy_true] at h
  obtain ⟨fs₂, prepared, filled⟩ := copy_eq_ok.mp h
  rw [copyName_true] at prepared
  obtain ⟨fs₁, name, made, fresh, rfl, written⟩ := prepare_eq_ok.mp prepared
  obtain ⟨n, free, rfl⟩ := fresh_eq_ok.mp fresh
  exact ⟨fs₁, n, made, free, rfl, (directories_fill filled).trans (directories_write written)⟩

theorem copy_of_free {fs₁ : Files} {c : Content} (made : fs.makeDirectories tmp = (fs₁, .ok ()))
    (free : Free fs₁ a tmp n) (met : fs₁.locate (a.numbered tmp n) = .ok q)
    (outside : q ∉ fs₁.directories) (source : a.source = .memory c) :
    ∃ fs', a.copyToTemporary fs tmp = (fs', .ok (a.numbered tmp n)) ∧
      fs'.directories = fs₁.directories := by
  have plain := isPlain_numbered a tmp n
  obtain ⟨fs₂, written⟩ : ∃ fs₂, fs₁.write (a.numbered tmp n) (.data []) = .ok fs₂ :=
    ⟨_, write_of_free plain met outside⟩
  have same := directories_write written
  have met' := (locate_of_directories plain same).mpr met
  obtain ⟨fs₃, filled⟩ : ∃ fs₃, a.fill fs₂ (a.numbered tmp n) = .ok fs₃ := by
    rw [fill, source]
    exact ⟨_, write_of_free plain met' (same ▸ outside)⟩
  have prepared : prepare fs tmp (fun fs => fs.fresh tmp (a.id ++ "-") ".jar") =
      (fs₂, .ok (a.numbered tmp n)) :=
    prepare_eq_ok.mpr ⟨fs₁, _, made, fresh_eq_ok.mpr ⟨n, free, rfl⟩, rfl, written⟩
  refine ⟨fs₃, ?_, (directories_fill filled).trans same⟩
  simp only [copyToTemporary, prepared, filled]

/-- The place of a copy, in a state to which no more directories are added for other copies. -/
theorem slot_of_copy {target : String} (h : a.copyToTemporary fs tmp = (fs', .ok target))
    (same : fs'.directories = T.directories) (found : fs'.locate target = .ok p) (outside : p ∉ full)
    (clear : ∀ q ∈ full, ∀ c, fs.node? q ≠ some (.file c)) : Slot T full tmp a p := by
  obtain ⟨fs₁, n, made, ⟨six, _, before⟩, rfl, same'⟩ := numbered_of_copy h
  have makes := Within.makeDirectories fs tmp
  rw [made] at makes
  have back {k : ℕ} {q : Place} : T.locate (a.numbered tmp k) = .ok q ↔
      fs₁.locate (a.numbered tmp k) = .ok q :=
    locate_of_directories (isPlain_numbered a tmp k) (same.symm.trans same')
  refine ⟨outside, n, six, ?_, fun m r six' earlier met inside => ?_⟩
  · exact (locate_of_directories (isPlain_numbered a tmp n) same).mp found
  · obtain ⟨r', node, met', taken⟩ := exists?_iff.mp (before m six' earlier)
    obtain rfl := Except.ok.inj ((back.mp met).symm.trans met')
    cases node with
    | directory => rwa [← same, same', mem_directories]
    | file c => exact absurd ((makes.elsewhere r c not_false).mp taken) (clear r inside c)

/-- There is room for a copy while one place of its row is free. Where it goes instead, if it does not
go there, is no place of a directory either. -/
theorem copy_of_slot {fs₁ : Files} {c : Content} (slot : Slot T full tmp a p)
    (made : fs.makeDirectories tmp = (fs₁, .ok ())) (same : fs₁.directories = T.directories)
    (few : T.directories ⊆ full) (free : ∀ c, fs.node? p ≠ some (.file c))
    (source : a.source = .memory c) :
    ∃ fs' target q, a.copyToTemporary fs tmp = (fs', .ok target) ∧ fs'.directories = T.directories ∧
      fs'.locate target = .ok q ∧ q ∉ full ∧ ∀ b, Slot T full tmp b q → Slot T full tmp b p := by
  obtain ⟨n, six, located, before⟩ := slot.row
  have makes := Within.makeDirectories fs tmp
  rw [made] at makes
  have found (m : ℕ) {q : Place} : T.locate (a.numbered tmp m) = .ok q ↔
      fs₁.locate (a.numbered tmp m) = .ok q :=
    locate_of_directories (isPlain_numbered a tmp m) same.symm
  have empty : fs₁.exists? (a.numbered tmp n) = false := by
    refine Bool.eq_false_of_not_eq_true fun taken => ?_
    obtain ⟨q, node, met, there⟩ := exists?_iff.mp taken
    obtain rfl := Except.ok.inj (((found n).mp located).symm.trans met)
    cases node with
    | directory => exact slot.outside (few (same ▸ mem_directories.mpr there))
    | file c => exact free c ((makes.elsewhere p c not_false).mp there)
  obtain ⟨k, most, first⟩ := exists_free six empty
  obtain ⟨directory, last, row⟩ := locate_numbered six located
  have met := row k first.1
  generalize directory ++ [String.ofList (last ++ numberedEnd k)] = q at met
  have outside : q ∉ full := by
    intro inside
    rcases most.lt_or_eq with earlier | rfl
    · have there := before k q first.1 earlier met inside
      rw [← same, mem_directories] at there
      exact nomatch first.2.1.symm.trans (exists?_iff.mpr ⟨q, _, (found k).mp met, there⟩)
    · rw [located] at met
      exact slot.outside (Except.ok.inj met ▸ inside)
  obtain ⟨fs', copied, same'⟩ := copy_of_free made first ((found k).mp met)
    (fun there => outside (few (same ▸ there))) source
  exact ⟨fs', a.numbered tmp k, q, copied, same'.trans same,
    (locate_of_directories (isPlain_numbered a tmp k) (same'.trans same)).mpr met, outside,
    fun b other => slot.swap first.1 met other⟩

end Artifact

end ModRemap
