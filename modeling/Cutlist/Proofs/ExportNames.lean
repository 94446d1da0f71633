import Cutlist.Export.OutputName
import Cutlist.Proofs.Places
import Cutlist.Proofs.TimestampText

/-!
# Exports stay in their directory

The name of a project becomes part of a path, and it can be any text: a way up,
a way from the root, or nothing at all. What a path makes of a text depends on
its slashes and on names that are a dot, and neither is left of a name once it
has been cleaned and the time has been put behind it. So the path has exactly
one name more than the directory, which is the one that was meant.
-/

namespace Cutlist

open Decimal

/-! ## Dates and times of day -/

namespace Timestamp

/-- Eight digits of a date and six of a time of day. -/
structure Stamps (t : Timestamp) (date time : List Char) : Prop where
  isDigit : ∀ c ∈ date ++ time, c.isDigit = true
  length_date : date.length = 8
  length_time : time.length = 6
  value_date : value date = (t.year * 100 + t.month) * 100 + t.day
  value_time : value time = (t.hour * 100 + t.minute) * 100 + t.second

theorem length_digits_year {t : Timestamp} (h : 1000 ≤ t.year) :
    (digits t.year).length = 4 := by
  have hrange := t.inRange
  have hle : (digits t.year).length ≤ 4 :=
    (Nat.length_toDigits_le_iff (by decide) (by decide)).2
      (Nat.lt_succ_of_le hrange.year_le)
  have hgt : ¬ (digits t.year).length ≤ 3 := fun hle =>
    Nat.not_lt.2 h ((Nat.length_toDigits_le_iff (by decide) (by decide)).1 hle)
  omega

/-- Two digits at the end of a number are its last two. -/
theorem value_append_padded (cs : List Char) {n : Nat} (h : n < 100) :
    value (cs ++ padded 2 n) = value cs * 100 + n := by
  rw [value_append, ofDigitChars_shift, length_padded (by decide) h, value_padded]
  rfl

/-- From the year 1000 on, a timestamp is stamped with a date of eight digits and
a time of six. -/
theorem exists_stamps {t : Timestamp} (h : 1000 ≤ t.year) :
    ∃ date time, t.Stamps date time ∧ t.stamp.toList = date ++ '_' :: time := by
  have hrange := t.inRange
  have hmonth : t.month < 100 := Nat.lt_of_le_of_lt hrange.month_le (by decide)
  have hday : t.day < 100 := t.day_lt
  have hhour : t.hour < 100 := Nat.lt_trans hrange.hour_lt (by decide)
  have hminute : t.minute < 100 := Nat.lt_trans hrange.minute_lt (by decide)
  have hsecond : t.second < 100 := Nat.lt_trans hrange.second_lt (by decide)
  have hyear := length_digits_year h
  have htwo {n : Nat} (hn : n < 100) : (padded 2 n).length = 2 :=
    length_padded (by decide) hn
  refine ⟨digits t.year ++ padded 2 t.month ++ padded 2 t.day,
    padded 2 t.hour ++ padded 2 t.minute ++ padded 2 t.second,
    ⟨?_, ?_, ?_, ?_, ?_⟩, ?_⟩
  · intro c hc
    simp only [List.mem_append] at hc
    rcases hc with ((hc | hc) | hc) | (hc | hc) | hc
    · exact isDigit_of_mem_digits hc
    all_goals exact isDigit_of_mem_padded hc
  · rw [List.length_append, List.length_append, hyear, htwo hmonth, htwo hday]
  · rw [List.length_append, List.length_append, htwo hhour, htwo hminute,
      htwo hsecond]
  · rw [value_append_padded _ hday, value_append_padded _ hmonth, value_digits]
  · rw [value_append_padded _ hsecond, value_append_padded _ hminute,
      value_padded]
  · rw [stamp, String.toList_ofList]
    simp only [List.append_assoc, List.cons_append]

end Timestamp

namespace Export.OutputName

/-- A character that some file system refuses in a name, or a space. -/
def isUnsafe (c : Char) : Bool := "/\\:*?\"<>| ".toList.contains c

/-- The character that stands for another in a file name. -/
def safely (c : Char) : Char := if isUnsafe c then '_' else c

/-- A name for the export of a project: its own name with every unsafe character
replaced, the date, the time, the size and the format. -/
structure IsNameFor (file name : String) (o : Options) (now : Timestamp) :
    Prop where
  safe : ∀ c ∈ file.toList, isUnsafe c = false
  parts : ∃ date time, now.Stamps date time ∧
    file.toList = name.toList.map safely ++ '_' :: (date ++ '_' :: (time ++
      '_' :: ((sizeLabel o).toList ++ '.' :: o.format.toText.toList)))

theorem mem_refused_iff {c : Char} :
    c ∈ refused ↔ ∃ i, i < refused.length + 1 ∧
      [c].isPrefixOf (refused.drop i) = true := by
  constructor
  · intro hc
    obtain ⟨i, hi, rfl⟩ := List.getElem_of_mem hc
    refine ⟨i, Nat.lt_succ_of_lt hi, ?_⟩
    rw [List.drop_eq_getElem_cons hi]
    simp [List.isPrefixOf]
  · rintro ⟨i, _, hprefix⟩
    refine List.mem_of_mem_drop (i := i) ?_
    exact (List.isPrefixOf_iff_prefix.1 hprefix).subset List.mem_cons_self

theorem cleanPart_singleton (c : Char) :
    cleanPart [c] = [if c ∈ refused then '_' else c] := by
  have hany : (List.range (refused.length + 1)).any
      (fun i => [c].isPrefixOf (refused.drop i)) = true ↔ c ∈ refused := by
    simp only [List.any_eq_true, List.mem_range, mem_refused_iff]
  rw [cleanPart]
  by_cases hc : c ∈ refused
  · rw [if_pos (hany.2 hc), if_pos hc]
  · rw [if_neg (mt hany.1 hc), if_neg hc]

theorem isUnsafe_iff {c : Char} : isUnsafe c = true ↔ c ∈ refused ∨ c = ' ' := by
  rw [isUnsafe, List.contains_iff_mem]
  exact List.mem_append (s := refused) (t := [' ']).trans
    (or_congr_right List.mem_singleton)

theorem isUnsafe_safely (c : Char) : isUnsafe (safely c) = false := by
  rw [safely]
  split
  · decide
  · next h => exact Bool.eq_false_iff.2 h

theorem safely_safely (c : Char) : safely (safely c) = safely c := by
  rw [safely, if_neg (Bool.eq_false_iff.1 (isUnsafe_safely c))]

/-- Refused characters first and spaces after them come to the same. -/
theorem withoutSpaces_cleanPart (c : Char) :
    withoutSpaces (cleanPart [c]) = [safely c] := by
  rw [cleanPart_singleton, withoutSpaces, List.map_singleton, safely]
  by_cases hrefused : c ∈ refused
  · rw [if_pos hrefused, if_pos (isUnsafe_iff.2 (.inl hrefused))]
    rfl
  · rw [if_neg hrefused]
    by_cases hspace : c = ' '
    · rw [if_pos hspace, if_pos (isUnsafe_iff.2 (.inr hspace))]
    · rw [if_neg hspace, if_neg fun h => (isUnsafe_iff.1 h).elim hrefused hspace]

/-- A text is cleaned character by character. -/
theorem toList_sanitize (name : String) :
    (sanitize name).toList = name.toList.map safely := by
  rw [sanitize, String.toList_ofList, clean]
  induction name.toList with
  | nil => rfl
  | cons c cs ih =>
      have happend (xs ys : List Char) :
          withoutSpaces (xs ++ ys) = withoutSpaces xs ++ withoutSpaces ys :=
        List.map_append
      rw [List.map_cons, List.flatMap_cons, happend, withoutSpaces_cleanPart, ih,
        List.map_cons, List.singleton_append]

theorem sanitize_sanitize (name : String) :
    sanitize (sanitize name) = sanitize name := by
  rw [← String.toList_inj, toList_sanitize, toList_sanitize, List.map_map]
  exact List.map_congr_left fun c _ => safely_safely c

/-! ## Names of files -/

theorem toList_ending (o : Options) (now : Timestamp) :
    (ending o now).toList = '_' :: (now.stamp.toList ++
      '_' :: ((sizeLabel o).toList ++ '.' :: o.format.toText.toList)) := by
  simp [ending, String.toList_append, toString]

theorem isUnsafe_of_isDigit {c : Char} (h : c.isDigit = true) :
    isUnsafe c = false := by
  have hnone : "/\\:*?\"<>| ".toList.all (!·.isDigit) = true := by decide
  rw [isUnsafe, Bool.eq_false_iff, ne_eq, List.contains_iff_mem]
  intro hmem
  have hc := List.all_eq_true.1 hnone c hmem
  rw [h] at hc
  cases hc

theorem isNameFor_sanitize (name : String) (o : Options) {now : Timestamp}
    (h : 1000 ≤ now.year) :
    IsNameFor (sanitize name ++ ending o now) name o now := by
  obtain ⟨date, time, hstamps, hstamp⟩ := now.exists_stamps h
  have hparts : (sanitize name ++ ending o now).toList =
      name.toList.map safely ++ '_' :: (date ++ '_' :: (time ++
        '_' :: ((sizeLabel o).toList ++ '.' :: o.format.toText.toList))) := by
    rw [String.toList_append, toList_sanitize, toList_ending, hstamp,
      List.append_assoc, List.cons_append]
  refine ⟨fun c hc => ?_, date, time, hstamps, hparts⟩
  have hlabel : (sizeLabel o).toList.all (!isUnsafe ·) = true := by
    rw [sizeLabel]
    split
    · decide
    · cases o.size <;> decide
  have hformat : o.format.toText.toList.all (!isUnsafe ·) = true := by
    cases o.format <;> decide
  rw [hparts] at hc
  simp only [List.mem_append, List.mem_cons, List.mem_map] at hc
  rcases hc with ⟨x, _, rfl⟩ | rfl | hc | rfl | hc | rfl | hc | rfl | hc
  · exact isUnsafe_safely x
  · decide
  · exact isUnsafe_of_isDigit (hstamps.isDigit c (List.mem_append_left _ hc))
  · decide
  · exact isUnsafe_of_isDigit (hstamps.isDigit c (List.mem_append_right _ hc))
  · decide
  · simpa using List.all_eq_true.1 hlabel c hc
  · decide
  · simpa using List.all_eq_true.1 hformat c hc

/-- A safe name with a low line in it is the name of one file. -/
theorem ofString_of_safe {file : String}
    (hsafe : ∀ c ∈ file.toList, isUnsafe c = false) (hline : '_' ∈ file.toList) :
    FilePath.ofString file = ⟨.here, [file]⟩ := by
  refine FilePath.ofString_name ?_ ?_ fun hslash => ?_
  · rintro rfl
    exact absurd hline (by decide)
  · rintro rfl
    exact absurd hline (by decide)
  · exact absurd (hsafe '/' hslash) (by decide)

/-- Whatever a project is called, its export goes right into the directory that
was chosen, under a name of its own; and cleaning a name once is enough. -/
theorem path_in_directory (name : String) (o : Options) (directory : FilePath)
    {now : Timestamp} (h : 1000 ≤ now.year) :
    (∃ path file, path? (.text name) o directory now = some path ∧
      path.parent = directory ∧ path.name? = some file ∧
      IsNameFor file name o now) ∧
    sanitize (sanitize name) = sanitize name := by
  have hname := isNameFor_sanitize name o h
  have hline : '_' ∈ (sanitize name ++ ending o now).toList := by
    rw [String.toList_append, toList_ending]
    exact List.mem_append_right _ List.mem_cons_self
  refine ⟨⟨directory.child (sanitize name ++ ending o now), _, ?_,
    FilePath.parent_child _ _, List.getLast?_concat, hname⟩,
    sanitize_sanitize name⟩
  change some (directory.join (.ofString (sanitize name ++ ending o now))) = _
  rw [ofString_of_safe hname.safe hline]
  rfl

/-- A moment in the year 2024. -/
def afternoon : Timestamp :=
  ⟨2024, 2, 29, 14, 5, 9, 0, 0, by constructor <;> decide⟩

/-- A name that is a way up and down again. -/
theorem path_in_directory_up :
    1000 ≤ afternoon.year ∧
      (∃ path file, path? (.text "../../etc/pass wd") {} (.ofString "/exports")
          afternoon = some path ∧
        path.parent = .ofString "/exports" ∧ path.name? = some file ∧
        IsNameFor file "../../etc/pass wd" {} afternoon) ∧
      sanitize (sanitize "../../etc/pass wd") = sanitize "../../etc/pass wd" := by
  have hyear : 1000 ≤ afternoon.year := by decide
  exact ⟨hyear, path_in_directory _ {} _ hyear⟩

example : (path? (.text "../../etc/pass wd") {} (.ofString "/exports") afternoon).map
    FilePath.toText =
      some "/exports/.._.._etc_pass_wd_20240229_140509_1080p.mp4" := by
  decide +kernel

end Export.OutputName

end Cutlist
