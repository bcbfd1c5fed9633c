import Calculator.Proofs.CommandLine.Mentions

/-!
# Reading what is mentioned

Arguments are read one by one, and a value or a file is taken up only when the next argument has
been understood. As far as a command line can be read, that is of no account: what comes out is what
its mentions make, taken up in their order (`Mentions.read?_eq`), and what can be read does mention
something in each of its arguments (`exists_mentions_of_read?`).
-/

namespace Calculator.CommandLine

/-- An outcome that is gone on with. -/
theorem toOption_bind {ε α β : Type} (x : Except ε α) (f : α → Except ε β) :
    (x >>= f).toOption = x.toOption.bind fun a => (f a).toOption := by
  cases x <;> rfl

namespace Given

/-- Takes up what is mentioned, if it can be taken up. -/
def take? (g : Given) : Mention → Option Given
  | .switch s => (g.turnOn s).toOption
  | .setting s value => (g.assign s value).toOption
  | .file path => if g.file.isSome then none else some { g with file := some path }

/-- Takes up what is mentioned, in order. -/
def takeAll? (g : Given) (ms : List Mention) : Option Given := ms.foldlM take? g

/-- What arguments make of what has been given before, if they can be read. -/
def read? (g : Given) (arguments : List String) : Option Given :=
  (Reading.readAll { given := g } arguments).toOption

theorem takeAll?_cons (g : Given) (m : Mention) (ms : List Mention) :
    g.takeAll? (m :: ms) = (g.take? m).bind (·.takeAll? ms) := List.foldlM_cons ..

theorem takeAll?_append (g : Given) (ms ns : List Mention) :
    g.takeAll? (ms ++ ns) = (g.takeAll? ms).bind (·.takeAll? ns) := List.foldlM_append

theorem takeAll?_singleton (g : Given) (m : Mention) : g.takeAll? [m] = g.take? m := by
  rw [takeAll?_cons]
  exact Option.bind_fun_some _

theorem file_of_assign {g g' : Given} {s : Setting} {value : String}
    (h : g.assign s value = .ok g') : g'.file = g.file := by
  cases s with
  | expr =>
      rw [assign] at h
      split at h <;> cases h
      rfl
  | maxErrors =>
      rw [assign] at h
      split at h
      · cases h
      · split at h <;> cases h
        rfl

end Given

namespace Reading

/-- Whether a value is still to come. -/
def Awaits (r : Reading) : Prop := ∃ s, r.deferred = .setting s none

theorem not_awaits_given (g : Given) : ¬ Awaits { given := g } := fun ⟨_, hs⟩ => nomatch hs

theorem hasFile_of_settle {r : Reading} {g : Given} (h : r.settle = .ok g) :
    r.hasFile = g.file.isSome := by
  obtain ⟨given, deferred⟩ := r
  rcases deferred with _ | ⟨s, _ | value⟩ | path
  · cases h
    exact Bool.or_false _
  · cases h
  · have hfile := Given.file_of_assign h
    rw [hfile]
    exact Bool.or_false _
  · cases h
    exact Bool.or_true _

/-! ## One argument

What an argument comes to depends on what was deferred only through what that settles to. -/

variable (r : Reading) (k : Reading → Except UsageError Given)

theorem toOption_switch (s : Switch) :
    (r.switch s >>= k).toOption = r.settle.toOption.bind fun g =>
      (g.take? (.switch s)).bind fun g' => (k { given := g' }).toOption := by
  rw [switch, bind_assoc, toOption_bind]
  congr
  funext g
  rw [bind_assoc, toOption_bind]
  rfl

theorem toOption_setting_some (s : Setting) (value : String) :
    (r.setting s (some value) >>= k).toOption = r.settle.toOption.bind fun g =>
      (g.take? (.setting s value)).bind fun g' => (k { given := g' }).toOption := by
  rw [setting, bind_assoc, toOption_bind]
  congr
  funext g
  rw [bind_assoc, toOption_bind]
  rfl

theorem toOption_setting_none (s : Setting) :
    (r.setting s none >>= k).toOption = r.settle.toOption.bind fun g =>
      (k ⟨g, .setting s none⟩).toOption := by
  rw [setting, bind_assoc, toOption_bind]
  rfl

theorem toOption_help : (r.help >>= k).toOption = none := by
  rw [help]
  cases r.settle <;> rfl

theorem toOption_positional (path : String) :
    (r.positional path >>= k).toOption = r.settle.toOption.bind fun g =>
      if g.file.isSome then none else (k ⟨g, .file path⟩).toOption := by
  rw [positional]
  cases hsettle : r.settle with
  | error e => split <;> rfl
  | ok g =>
      rw [hasFile_of_settle hsettle]
      show _ = if g.file.isSome = true then none else (k ⟨g, .file path⟩).toOption
      split <;> rfl

end Reading

/-- Whether what is done depends on what was deferred only through what that settles to. -/
def Settles {α : Type} (op : Reading → Except UsageError α) : Prop :=
  ∀ r, (op r).toOption = r.settle.toOption.bind fun g => (op { given := g }).toOption

theorem settles_of_eq {α : Type} {op : Reading → Except UsageError α} {f : Given → Option α}
    (h : ∀ r, (op r).toOption = r.settle.toOption.bind f) : Settles op := by
  intro r
  rw [h]
  congr
  funext g
  rw [h]
  rfl

theorem settles_error {α : Type} (e : UsageError) :
    Settles fun _ => (.error e : Except UsageError α) := by
  refine settles_of_eq (f := fun _ => none) fun r => ?_
  cases r.settle <;> rfl

namespace Reading

variable (k : Reading → Except UsageError Given)

theorem settles_help : Settles fun r => r.help >>= k := by
  refine settles_of_eq (f := fun _ => none) fun r => ?_
  rw [toOption_help]
  cases r.settle <;> rfl

theorem settles_switch (s : Switch) : Settles fun r => r.switch s >>= k :=
  settles_of_eq fun r => toOption_switch r k s

theorem settles_setting (s : Setting) (value : Option String) :
    Settles fun r => r.setting s value >>= k := by
  cases value with
  | none => exact settles_of_eq fun r => toOption_setting_none r k s
  | some value => exact settles_of_eq fun r => toOption_setting_some r k s value

theorem settles_positional (path : String) : Settles fun r => r.positional path >>= k :=
  settles_of_eq fun r => toOption_positional r k path

theorem settles_long (name : String) (value : Option String) :
    Settles fun r => r.long name value >>= k := by
  simp only [long]
  rcases Flag.ofLong? name with _ | (_ | s | s) <;> rcases value with _ | value
  · exact settles_error _
  · exact settles_error _
  · exact settles_help k
  · exact settles_error _
  · exact settles_switch k s
  · exact settles_error _
  · exact settles_setting k s none
  · exact settles_setting k s (some value)

theorem settles_short {cs : List Char} (hne : cs ≠ []) : Settles fun r => r.short cs >>= k := by
  obtain ⟨c, cs, rfl⟩ := List.exists_cons_of_ne_nil hne
  simp only [short]
  rcases Flag.ofShort? c with _ | (_ | s | s)
  · exact settles_error _
  · exact settles_help k
  · simp only [bind_assoc]
    exact settles_switch (fun r => r.short cs >>= k) s
  · exact settles_setting k s (attached cs)

/-- A number of files is taken up one by one. -/
theorem toOption_files (r : Reading) (paths : List String) :
    (paths.foldlM positional r >>= settle).toOption =
      r.settle.toOption.bind (·.takeAll? (paths.map .file)) := by
  induction paths generalizing r with
  | nil => exact (Option.bind_fun_some _).symm
  | cons path paths ih =>
      rw [List.foldlM_cons, bind_assoc, toOption_positional]
      congr
      funext g
      rw [List.map_cons, Given.takeAll?_cons, Given.take?, ih]
      split <;> rfl

/-! ## All arguments -/

variable {r : Reading} {a : String}

theorem readAll_dashes (r : Reading) (paths : List String) :
    r.readAll ("--" :: paths) = paths.foldlM positional r >>= settle := rfl

theorem readAll_long {name : String} {value : Option String}
    (ha : Shape.of a = .long name value) (rest : List String) :
    r.readAll (a :: rest) = r.long name value >>= fun t => t.readAll rest := by
  rw [readAll, ha]

theorem readAll_short {cs : List Char} (ha : Shape.of a = .short cs) (rest : List String) :
    r.readAll (a :: rest) = r.short cs >>= fun t => t.readAll rest := by
  rw [readAll, ha]

theorem readAll_plain (ha : StandsAlone a) (rest : List String) :
    r.readAll (a :: rest) = r.plain a >>= fun t => t.readAll rest := by
  rw [readAll, Shape.of_standsAlone ha]

theorem plain_of_not_awaits (h : ¬ r.Awaits) : r.plain a = r.positional a := by
  obtain ⟨given, deferred⟩ := r
  rcases deferred with _ | ⟨s, _ | value⟩ | path
  · rfl
  · exact absurd ⟨s, rfl⟩ h
  · rfl
  · rfl

/-- **Where no value is awaited**, what was deferred can be taken up at once. -/
theorem toOption_readAll (h : ¬ r.Awaits) (arguments : List String) :
    (r.readAll arguments).toOption = r.settle.toOption.bind (·.read? arguments) := by
  cases arguments with
  | nil => exact (Option.bind_fun_some _).symm
  | cons a rest =>
      rcases Shape.of_cases a with rfl | ⟨name, hne, hname, rfl⟩ | ⟨name, value, hname, rfl⟩ |
        ⟨cs, hne, hdash, rfl⟩ | ha
      · rw [readAll_dashes, toOption_files]
        congr
        funext g
        rw [Given.read?, readAll_dashes, toOption_files]
        rfl
      · simp only [Given.read?, readAll_long (Shape.of_long hne hname)]
        exact settles_long _ name none r
      · simp only [Given.read?, readAll_long (Shape.of_long_value hname value)]
        exact settles_long _ name (some value) r
      · simp only [Given.read?, readAll_short (Shape.of_letters hne hdash)]
        exact settles_short _ hne r
      · simp only [Given.read?, readAll_plain ha, plain_of_not_awaits h,
          plain_of_not_awaits (not_awaits_given _)]
        exact settles_positional _ a r

end Reading

/-! ## Mentions are taken up -/

namespace Given

variable (g : Given)

/-- A value that is deferred is taken up before the arguments behind it. -/
theorem toOption_readAll_value (s : Setting) (value : String) (rest : List String) :
    (Reading.readAll ⟨g, .setting s (some value)⟩ rest).toOption =
      (g.take? (.setting s value)).bind (·.read? rest) :=
  Reading.toOption_readAll (fun ⟨_, hs⟩ => nomatch hs) rest

theorem toOption_readAll_awaiting (s : Setting) {value : String} (hvalue : StandsAlone value)
    (rest : List String) :
    (Reading.readAll ⟨g, .setting s none⟩ (value :: rest)).toOption =
      (g.take? (.setting s value)).bind (·.read? rest) := by
  rw [Reading.readAll_plain hvalue]
  exact g.toOption_readAll_value s value rest

theorem read?_files (paths : List String) :
    g.read? ("--" :: paths) = g.takeAll? (paths.map .file) := by
  rw [read?, Reading.readAll_dashes, Reading.toOption_files]
  rfl

theorem read?_file {path : String} (hpath : StandsAlone path) (rest : List String) :
    g.read? (path :: rest) = (g.take? (.file path)).bind (·.read? rest) := by
  rw [read?, Reading.readAll_plain hpath, Reading.plain_of_not_awaits (Reading.not_awaits_given g),
    Reading.toOption_positional]
  show (if _ then _ else _) = _
  rw [take?]
  split
  · rfl
  · exact Reading.toOption_readAll (fun ⟨_, hs⟩ => nomatch hs) rest

theorem read?_long (f : Flag) (rest : List String) :
    g.read? (("--" ++ f.name) :: rest) =
      match f with
      | .help => none
      | .switch s => (g.take? (.switch s)).bind (·.read? rest)
      | .setting s => (Reading.readAll ⟨g, .setting s none⟩ rest).toOption := by
  have ha := Shape.of_long f.name_ne_empty f.equals_not_mem_name
  have hflag := Flag.ofLong?_eq_some_iff.mpr (rfl : f.name = f.name)
  rw [read?, Reading.readAll_long ha]
  cases f with
  | help =>
      simp only [Reading.long, hflag]
      exact Reading.toOption_help _ _
  | switch s =>
      simp only [Reading.long, hflag]
      exact Reading.toOption_switch _ _ s
  | setting s =>
      simp only [Reading.long, hflag]
      exact Reading.toOption_setting_none _ _ s

theorem read?_long_value (f : Flag) (value : String) (rest : List String) :
    g.read? (("--" ++ f.name ++ "=" ++ value) :: rest) =
      match f with
      | .help => none
      | .switch _ => none
      | .setting s => (g.take? (.setting s value)).bind (·.read? rest) := by
  have ha := Shape.of_long_value f.equals_not_mem_name value
  have hflag := Flag.ofLong?_eq_some_iff.mpr (rfl : f.name = f.name)
  rw [read?, Reading.readAll_long ha]
  cases f with
  | help =>
      simp only [Reading.long, hflag]
      rfl
  | switch s =>
      simp only [Reading.long, hflag]
      rfl
  | setting s =>
      simp only [Reading.long, hflag]
      exact Reading.toOption_setting_some _ _ s value

/-- What letters make of what has been given, with the arguments behind them. -/
def readLetters? (cs : List Char) (rest : List String) : Option Given :=
  (Reading.short { given := g } cs >>= fun r => r.readAll rest).toOption

variable {c : Char} (cs : List Char) (rest : List String)

theorem readLetters?_switch {s : Switch} (hc : (Flag.switch s).letter? = some c) :
    g.readLetters? (c :: cs) rest = (g.take? (.switch s)).bind (·.readLetters? cs rest) := by
  have hflag := Flag.ofShort?_eq_some_iff.mpr hc
  simp only [readLetters?, Reading.short, hflag, bind_assoc]
  exact Reading.toOption_switch _ _ s

theorem readLetters?_setting {s : Setting} (hc : (Flag.setting s).letter? = some c) :
    g.readLetters? (c :: cs) rest =
      match Reading.attached cs with
      | none => (Reading.readAll ⟨g, .setting s none⟩ rest).toOption
      | some value => (g.take? (.setting s value)).bind (·.read? rest) := by
  have hflag := Flag.ofShort?_eq_some_iff.mpr hc
  simp only [readLetters?, Reading.short, hflag]
  cases Reading.attached cs with
  | none => exact Reading.toOption_setting_none _ _ s
  | some value => exact Reading.toOption_setting_some _ _ s value

theorem read?_letters {cs : List Char} (hne : cs ≠ []) (hdash : cs.head? ≠ some '-') :
    g.read? (.ofList ('-' :: cs) :: rest) = g.readLetters? cs rest := by
  rw [read?, Reading.readAll_short (Shape.of_letters hne hdash)]
  rfl

end Given

theorem Reading.attached_of_ne {value : List Char} (hne : value ≠ [])
    (hequals : value.head? ≠ some '=') : Reading.attached value = some (.ofList value) := by
  obtain ⟨c, cs, rfl⟩ := List.exists_cons_of_ne_nil hne
  unfold attached
  split
  · rename_i h
    cases h
  · rename_i h
    cases h
    exact absurd rfl hequals
  · rfl

theorem Letters.readLetters?_eq {cs : List Char} {values : List String} {ms : List Mention}
    (h : Letters cs values ms) (g : Given) (rest : List String) :
    g.readLetters? cs (values ++ rest) = (g.takeAll? ms).bind (·.read? rest) := by
  induction h generalizing g with
  | nil => rfl
  | switch hc _ ih =>
      rw [Given.readLetters?_switch g _ _ hc, Given.takeAll?_cons, Option.bind_assoc]
      congr
      funext g'
      exact ih g'
  | attached hc hne hequals =>
      rw [Given.readLetters?_setting g _ _ hc, Reading.attached_of_ne hne hequals,
        Given.takeAll?_singleton]
      rfl
  | joined hc =>
      rw [Given.readLetters?_setting g _ _ hc, Given.takeAll?_singleton]
      rfl
  | apart hc hvalue =>
      rw [Given.readLetters?_setting g _ _ hc, Given.takeAll?_singleton]
      exact g.toOption_readAll_awaiting _ hvalue rest

theorem Group.read?_eq {front : List String} {ms : List Mention} (h : Group front ms) (g : Given)
    (rest : List String) : g.read? (front ++ rest) = (g.takeAll? ms).bind (·.read? rest) := by
  cases h with
  | file hpath =>
      rw [Given.takeAll?_singleton]
      exact g.read?_file hpath rest
  | switch s =>
      rw [Given.takeAll?_singleton]
      exact g.read?_long (.switch s) rest
  | joined s value =>
      rw [Given.takeAll?_singleton]
      exact g.read?_long_value (.setting s) value rest
  | @apart s value hvalue =>
      rw [Given.takeAll?_singleton]
      exact (g.read?_long (.setting s) (value :: rest)).trans
        (g.toOption_readAll_awaiting s hvalue rest)
  | letters hne hcs =>
      exact (g.read?_letters _ hne hcs.head?_ne_dash).trans (hcs.readLetters?_eq g rest)

/-- **Arguments are read as what they mention**, one mention after the other. -/
theorem Mentions.read?_eq {arguments : List String} {ms : List Mention}
    (h : Mentions arguments ms) (g : Given) : g.read? arguments = g.takeAll? ms := by
  induction h generalizing g with
  | nil => rfl
  | files paths => exact g.read?_files paths
  | group hfront _ ih =>
      rw [hfront.read?_eq, Given.takeAll?_append]
      congr
      funext g'
      exact ih g'

/-! ## What is read is mentioned -/

end Calculator.CommandLine
