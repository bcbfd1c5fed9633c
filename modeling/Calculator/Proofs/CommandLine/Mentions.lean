import Calculator.CommandLine.Arguments
import Mathlib.Data.List.TakeWhile

/-!
# What a command line mentions

How options and files are written on a command line. An option has a long name, and perhaps a
letter; letters can be joined behind one dash. A value is part of the same argument, or it is the
next one if that does not look like an option. Behind two dashes there are only files. Nothing here
is refused for being said twice, or for its value: that is up to the reading.
-/

namespace Calculator.CommandLine

/-- What can be mentioned. -/
inductive Mention
  | switch (s : Switch)
  | setting (s : Setting) (value : String)
  | file (path : String)
deriving DecidableEq, Repr

/-- The long name of an option. -/
def Flag.name : Flag → String
  | help => "help"
  | switch .stdin => "stdin"
  | switch .ast => "ast"
  | switch .quiet => "quiet"
  | setting .expr => "expr"
  | setting .maxErrors => "max-errors"

/-- The letter of an option that has one. -/
def Flag.letter? : Flag → Option Char
  | help => some 'h'
  | switch .quiet => some 'q'
  | setting .expr => some 'e'
  | _ => none

/-- Whether an argument does not look like an option: it does not begin with a dash, or it is
nothing else. -/
def StandsAlone (argument : String) : Prop :=
  argument.toList.head? ≠ some '-' ∨ argument = "-"

/-- What letters behind a dash mention, with the values in the arguments behind them. -/
inductive Letters : List Char → List String → List Mention → Prop
  | nil : Letters [] [] []
  | switch {c : Char} {cs : List Char} {s : Switch} {values : List String} {ms : List Mention}
      (hc : (Flag.switch s).letter? = some c) (hcs : Letters cs values ms) :
      Letters (c :: cs) values (.switch s :: ms)
  /-- The value is right behind the letter. -/
  | attached {c : Char} {value : List Char} {s : Setting}
      (hc : (Flag.setting s).letter? = some c) (hne : value ≠ []) (heq : value.head? ≠ some '=') :
      Letters (c :: value) [] [.setting s (.ofList value)]
  /-- The value is behind an equals sign. -/
  | joined {c : Char} {value : List Char} {s : Setting}
      (hc : (Flag.setting s).letter? = some c) :
      Letters (c :: '=' :: value) [] [.setting s (.ofList value)]
  /-- The value is the next argument. -/
  | apart {c : Char} {value : String} {s : Setting} (hc : (Flag.setting s).letter? = some c)
      (hvalue : StandsAlone value) : Letters [c] [value] [.setting s value]

/-- What an argument mentions, with the value in the argument behind it if there is one. -/
inductive Group : List String → List Mention → Prop
  | file {path : String} (hpath : StandsAlone path) : Group [path] [.file path]
  | switch (s : Switch) : Group ["--" ++ (Flag.switch s).name] [.switch s]
  | joined (s : Setting) (value : String) :
      Group ["--" ++ (Flag.setting s).name ++ "=" ++ value] [.setting s value]
  | apart (s : Setting) {value : String} (hvalue : StandsAlone value) :
      Group ["--" ++ (Flag.setting s).name, value] [.setting s value]
  | letters {cs : List Char} {values : List String} {ms : List Mention} (hne : cs ≠ [])
      (hcs : Letters cs values ms) : Group (.ofList ('-' :: cs) :: values) ms

/-- What the arguments of a command line mention, in order. -/
inductive Mentions : List String → List Mention → Prop
  | nil : Mentions [] []
  /-- Behind two dashes every argument is a file. -/
  | files (paths : List String) : Mentions ("--" :: paths) (paths.map .file)
  | group {front rest : List String} {ms ns : List Mention} (hfront : Group front ms)
      (hrest : Mentions rest ns) : Mentions (front ++ rest) (ms ++ ns)

/-! ## Names of options -/

theorem Flag.ofLong?_eq_some_iff {name : String} {f : Flag} :
    Flag.ofLong? name = some f ↔ name = f.name := by
  constructor
  · intro h
    unfold ofLong? at h
    split_ifs at h with h₁ h₂ h₃ h₄ h₅ h₆ <;> cases h <;> assumption
  · rintro rfl
    rcases f with _ | s | s
    · rfl
    · cases s <;> rfl
    · cases s <;> rfl

theorem Flag.ofShort?_eq_some_iff {c : Char} {f : Flag} :
    Flag.ofShort? c = some f ↔ f.letter? = some c := by
  constructor
  · intro h
    unfold ofShort? at h
    split at h <;> cases h <;> rfl
  · intro h
    rcases f with _ | s | s
    · cases h
      rfl
    · cases s <;> cases h
      rfl
    · cases s <;> cases h
      rfl

theorem Flag.name_ne_empty (f : Flag) : f.name ≠ "" := by
  rcases f with _ | s | s
  · decide
  · cases s <;> decide
  · cases s <;> decide

theorem Flag.equals_not_mem_name (f : Flag) : '=' ∉ f.name.toList := by
  rcases f with _ | s | s
  · decide
  · cases s <;> decide
  · cases s <;> decide

theorem Flag.letter?_ne_dash (f : Flag) : f.letter? ≠ some '-' := by
  rcases f with _ | s | s
  · decide
  · cases s <;> decide
  · cases s <;> decide

theorem Letters.head?_ne_dash {cs : List Char} {values : List String} {ms : List Mention}
    (h : Letters cs values ms) : cs.head? ≠ some '-' := by
  intro hhead
  cases h with
  | nil => cases hhead
  | switch hc | attached hc | joined hc | apart hc =>
      rw [Option.some.inj hhead] at hc
      exact Flag.letter?_ne_dash _ hc

/-! ## How an argument reads -/

namespace Shape

theorem of_dashes {a : String} {cs : List Char} (hne : cs ≠ []) (ha : a.toList = '-' :: '-' :: cs) :
    Shape.of a = .ofLong cs := by
  obtain ⟨c, cs, rfl⟩ := List.exists_cons_of_ne_nil hne
  rw [Shape.of, ha]
  rfl

theorem of_letters {cs : List Char} (hne : cs ≠ []) (hdash : cs.head? ≠ some '-') :
    Shape.of (.ofList ('-' :: cs)) = .short cs := by
  obtain ⟨c, cs, rfl⟩ := List.exists_cons_of_ne_nil hne
  have hc : c ≠ '-' := fun h => hdash (congrArg some h)
  rw [Shape.of, String.toList_ofList]
  simp [hc]

theorem of_standsAlone {a : String} (h : StandsAlone a) : Shape.of a = .plain := by
  rcases h with hhead | rfl
  · rcases hcs : a.toList with _ | ⟨c, cs⟩
    · rw [Shape.of, hcs]
    · have hc : c ≠ '-' := by
        rintro rfl
        rw [hcs] at hhead
        exact hhead rfl
      rw [Shape.of, hcs]
      simp [hc]
  · rfl

/-- The letters of a text without an equals sign are all in front of the first. -/
theorem forall_ne_equals {name : List Char} (hname : '=' ∉ name) :
    ∀ c ∈ name, (c != '=') = true := by
  intro c hc
  rw [bne_iff_ne]
  rintro rfl
  exact hname hc

theorem of_long {name : String} (hne : name ≠ "") (hname : '=' ∉ name.toList) :
    Shape.of ("--" ++ name) = .long name none := by
  have hcs : ("--" ++ name).toList = '-' :: '-' :: name.toList := String.toList_append
  have hnil : name.toList ≠ [] := fun h => hne (String.toList_inj.mp h)
  have hall := forall_ne_equals hname
  rw [of_dashes hnil hcs, ofLong, List.takeWhile_eq_self_iff.mpr hall,
    List.dropWhile_eq_nil_iff.mpr hall, String.ofList_toList]

theorem of_long_value {name : String} (hname : '=' ∉ name.toList) (value : String) :
    Shape.of ("--" ++ name ++ "=" ++ value) = .long name (some value) := by
  have hcs : ("--" ++ name ++ "=" ++ value).toList =
      '-' :: '-' :: (name.toList ++ '=' :: value.toList) := by
    simp only [String.toList_append, List.append_assoc]
    rfl
  have hall := forall_ne_equals hname
  have hstop : List.takeWhile (· != '=') ('=' :: value.toList) = [] := rfl
  have hrest : List.dropWhile (· != '=') ('=' :: value.toList) = '=' :: value.toList := rfl
  rw [of_dashes (List.append_ne_nil_of_right_ne_nil _ (List.cons_ne_nil _ _)) hcs, ofLong,
    List.takeWhile_append_of_pos hall, List.dropWhile_append_of_pos hall, hstop, hrest,
    List.append_nil, String.ofList_toList]
  exact congrArg (fun v => Shape.long name (some v)) String.ofList_toList

/-- An argument is two dashes, or a long option with or without a value, or letters behind a dash,
or else it stands alone. -/
theorem of_cases (a : String) :
    a = "--" ∨ (∃ name : String, name ≠ "" ∧ '=' ∉ name.toList ∧ a = "--" ++ name) ∨
      (∃ name value : String, '=' ∉ name.toList ∧ a = "--" ++ name ++ "=" ++ value) ∨
      (∃ cs, cs ≠ [] ∧ cs.head? ≠ some '-' ∧ a = .ofList ('-' :: cs)) ∨ StandsAlone a := by
  have hwritten {cs : List Char} (h : a.toList = cs) : a = .ofList cs := by
    rw [← h, String.ofList_toList]
  by_cases hhead : a.toList.head? = some '-'
  · obtain ⟨cs, hcs⟩ := List.head?_eq_some_iff.mp hhead
    by_cases hne : cs = []
    · subst hne
      exact .inr (.inr (.inr (.inr (.inr (hwritten hcs)))))
    by_cases hdash : cs.head? = some '-'
    · obtain ⟨ds, rfl⟩ := List.head?_eq_some_iff.mp hdash
      by_cases hequals : '=' ∈ ds
      · obtain ⟨name, value, rfl, hname⟩ := List.eq_append_cons_of_mem hequals
        refine .inr (.inr (.inl ⟨.ofList name, .ofList value, ?_, ?_⟩))
        · rwa [String.toList_ofList]
        · rw [← String.toList_inj, hcs]
          simp
      · by_cases hnil : ds = []
        · subst hnil
          exact .inl (hwritten hcs)
        · refine .inr (.inl ⟨.ofList ds, ?_, ?_, ?_⟩)
          · exact fun h => hnil (by rw [← String.toList_ofList (l := ds), h]; rfl)
          · rwa [String.toList_ofList]
          · rw [← String.toList_inj, hcs]
            simp
    · exact .inr (.inr (.inr (.inl ⟨cs, hne, hdash, hwritten hcs⟩)))
  · exact .inr (.inr (.inr (.inr (.inl hhead))))

end Shape

end Calculator.CommandLine
