import LiveHighlight.CommandLine.Options
import Mathlib.Data.List.Induction

/-! The arguments that the command line takes. They are those that split into groups, each an option
with its value, the flag or the name of the file, with one name at most; what they ask for does not
depend on the order of groups of different kinds. -/

namespace LiveHighlight

/-- A spelling of an option. -/
def ValueOption.spelling (option : ValueOption) (short : Bool) : String :=
  if short then option.shortName else option.longName

/-- What groups of arguments are for. -/
inductive GroupKind
  | valued (option : ValueOption)
  | stats
  | file
deriving DecidableEq, Repr

/-- Arguments that belong together. -/
inductive ArgumentGroup
  | valued (option : ValueOption) (short : Bool) (value : String)
  | stats
  | file (name : String)
deriving DecidableEq, Repr

namespace ArgumentGroup

def kind : ArgumentGroup → GroupKind
  | valued option _ _ => .valued option
  | stats => .stats
  | file _ => .file

def arguments : ArgumentGroup → List String
  | valued option short value => [option.spelling short, value]
  | stats => ["--stats"]
  | file name => [name]

/-- The last argument of a group, which says what is asked for. -/
def text : ArgumentGroup → String
  | valued _ _ value => value
  | stats => "--stats"
  | file name => name

/-- Values may be any texts, but that of an edit is a script. No name of a file begins like an
option. -/
def Proper : ArgumentGroup → Prop
  | valued option _ value => option = .edit → ∃ script, EditScript.read value = .ok script
  | stats => True
  | file name => name.toList.head? ≠ some '-'

/-- The groups of a kind, in their order. -/
def ofKind (gs : List ArgumentGroup) (kind : GroupKind) : List ArgumentGroup :=
  gs.filter fun g => g.kind = kind

/-- What the groups of a kind ask for, in their order. -/
def texts (gs : List ArgumentGroup) (kind : GroupKind) : List String := (ofKind gs kind).map text

/-- Some arguments in groups, which have one name of a file at most. -/
structure Splits (arguments : List String) (gs : List ArgumentGroup) : Prop where
  whole : arguments = gs.flatMap ArgumentGroup.arguments
  proper : ∀ g ∈ gs, g.Proper
  name : (ofKind gs .file).length ≤ 1

end ArgumentGroup

namespace ValueOption

theorem ofArgument?_eq_some_iff {argument : String} {option : ValueOption} :
    ofArgument? argument = some option ↔ ∃ short, argument = option.spelling short := by
  constructor
  · intro h
    have hfound := List.find?_some h
    rw [Bool.or_eq_true, beq_iff_eq, beq_iff_eq] at hfound
    rcases hfound with rfl | rfl
    · exact ⟨false, rfl⟩
    · exact ⟨true, rfl⟩
  · rintro ⟨short, rfl⟩
    cases option <;> cases short <;> decide

/-- Every spelling of an option begins with a dash, and none is the flag. -/
theorem spelling_head (option : ValueOption) (short : Bool) :
    (option.spelling short).toList.head? = some '-' ∧ option.spelling short ≠ "--stats" := by
  cases option <;> cases short <;> decide

theorem spelling_inj {option option' : ValueOption} {short short' : Bool}
    (h : option.spelling short = option'.spelling short') : option = option' ∧ short = short' := by
  revert h
  cases option <;> cases short <;> cases option' <;> cases short' <;> decide

end ValueOption

namespace ArgumentGroup

open ValueOption

variable {g g' : ArgumentGroup} {gs gs' : List ArgumentGroup} {kind : GroupKind}

theorem ofKind_cons (g : ArgumentGroup) (gs : List ArgumentGroup) (kind : GroupKind) :
    ofKind (g :: gs) kind = if g.kind = kind then g :: ofKind gs kind else ofKind gs kind := by
  unfold ofKind
  by_cases h : g.kind = kind
  · rw [List.filter_cons_of_pos (by simpa using h), if_pos h]
  · rw [List.filter_cons_of_neg (by simpa using h), if_neg h]

theorem texts_concat (gs : List ArgumentGroup) (g : ArgumentGroup) (kind : GroupKind) :
    texts (gs ++ [g]) kind = texts gs kind ++ if g.kind = kind then [g.text] else [] := by
  have happend : ofKind (gs ++ [g]) kind = ofKind gs kind ++ ofKind [g] kind :=
    List.filter_append gs [g]
  rw [texts, happend, List.map_append, ofKind_cons]
  split <;> rfl

theorem mem_of_ofKind_eq (h : ∀ kind, ofKind gs' kind = ofKind gs kind) (hg : g ∈ gs') :
    g ∈ gs := by
  have hmem : g ∈ ofKind gs' g.kind := List.mem_filter.mpr ⟨hg, by simp⟩
  rw [h] at hmem
  exact (List.mem_filter.mp hmem).1

/-- A group of one argument is no option with a value. -/
theorem ofArgument?_single (hproper : g.Proper) {argument : String}
    (h : g.arguments = [argument]) : ofArgument? argument = none := by
  rw [← Option.not_isSome_iff_eq_none, Option.isSome_iff_exists]
  rintro ⟨option, hoption⟩
  obtain ⟨short, rfl⟩ := ofArgument?_eq_some_iff.mp hoption
  obtain ⟨hdash, hstats⟩ := spelling_head option short
  cases g with
  | valued => exact absurd (List.cons.inj h).2 (List.cons_ne_nil _ _)
  | stats => exact hstats (List.singleton_inj.mp h).symm
  | file name =>
    rw [← List.singleton_inj.mp h] at hdash
    exact hproper hdash

/-- The first argument tells an option with a value from a group of one argument. -/
theorem valued_append_ne {option : ValueOption} {short : Bool} {value argument : String}
    {rest rest' : List String} (hproper : g.Proper) (h : g.arguments = [argument]) :
    (valued option short value).arguments ++ rest ≠ g.arguments ++ rest' := by
  intro heq
  have hoption := ofArgument?_eq_some_iff.mpr ⟨short, Eq.refl (option.spelling short)⟩
  rw [h] at heq
  rw [(List.cons.inj heq).1, ofArgument?_single hproper h] at hoption
  cases hoption

theorem arguments_append_inj {rest rest' : List String} (hproper : g.Proper)
    (hproper' : g'.Proper) (h : g.arguments ++ rest = g'.arguments ++ rest') :
    g = g' ∧ rest = rest' := by
  cases g with
  | valued option short value =>
    cases g' with
    | valued option' short' value' =>
      obtain ⟨hspelling, hvalue⟩ := List.cons.inj h
      obtain ⟨rfl, rfl⟩ := spelling_inj hspelling
      obtain ⟨rfl, rfl⟩ := List.cons.inj hvalue
      exact ⟨rfl, rfl⟩
    | stats => exact absurd h (valued_append_ne hproper' rfl)
    | file name => exact absurd h (valued_append_ne hproper' rfl)
  | stats =>
    cases g' with
    | valued option short value => exact absurd h.symm (valued_append_ne hproper rfl)
    | stats => exact ⟨rfl, (List.cons.inj h).2⟩
    | file name =>
      obtain ⟨rfl, -⟩ := List.cons.inj h
      exact absurd rfl hproper'
  | file name =>
    cases g' with
    | valued option short value => exact absurd h.symm (valued_append_ne hproper rfl)
    | stats =>
      obtain ⟨rfl, -⟩ := List.cons.inj h
      exact absurd rfl hproper
    | file name' =>
      obtain ⟨rfl, rfl⟩ := List.cons.inj h
      exact ⟨rfl, rfl⟩

/-- Arguments split into groups in one way at most. -/
theorem Splits.unique {args : List String} (h : Splits args gs) (h' : Splits args gs') :
    gs = gs' := by
  obtain ⟨rfl, hproper, -⟩ := h
  obtain ⟨hwhole, hproper', -⟩ := h'
  induction gs generalizing gs' with
  | nil =>
    cases gs' with
    | nil => rfl
    | cons g' gs' => cases g' <;> cases hwhole
  | cons g gs ih =>
    cases gs' with
    | nil => cases g <;> cases hwhole
    | cons g' gs' =>
      obtain ⟨hg, hgs⟩ := List.forall_mem_cons.mp hproper
      obtain ⟨hg', hgs'⟩ := List.forall_mem_cons.mp hproper'
      obtain ⟨rfl, hrest⟩ := arguments_append_inj hg hg' hwhole
      rw [ih hgs hrest hgs']

theorem Splits.of_ofKind_eq {args : List String} (h : Splits args gs)
    (hkinds : ∀ kind, ofKind gs' kind = ofKind gs kind) :
    Splits (gs'.flatMap ArgumentGroup.arguments) gs' where
  whole := rfl
  proper := fun g hg => h.proper g (mem_of_ofKind_eq hkinds hg)
  name := by
    rw [hkinds]
    exact h.name

end ArgumentGroup

open ArgumentGroup

namespace Options

/-- The options with what a group asks for. -/
def add (o : Options) : ArgumentGroup → Options
  | .valued .language _ value => { o with language := some value }
  | .valued .theme _ value => { o with theme := some value }
  | .valued .config _ value => { o with config := some value }
  | .valued .edit _ value => { o with edits := o.edits ++ (EditScript.read value).toOption.toList }
  | .stats => { o with stats := true }
  | .file name => { o with file := some name }

/-- What groups of arguments ask for: the last value of each option, every edit, and the name. -/
def ofGroups (gs : List ArgumentGroup) : Options where
  file := (texts gs .file).getLast?
  language := (texts gs (.valued .language)).getLast?
  theme := (texts gs (.valued .theme)).getLast?
  config := (texts gs (.valued .config)).getLast?
  edits := (texts gs (.valued .edit)).filterMap fun value => (EditScript.read value).toOption
  stats := !(texts gs .stats).isEmpty

variable {o o' : Options} {g : ArgumentGroup} {gs gs' : List ArgumentGroup}

theorem ofGroups_concat (gs : List ArgumentGroup) (g : ArgumentGroup) :
    ofGroups (gs ++ [g]) = (ofGroups gs).add g := by
  cases g with
  | valued option short value =>
    cases option with
    | edit =>
      cases hread : (EditScript.read value).toOption <;>
        simp [ofGroups, texts_concat, add, kind, text, hread]
    | language | theme | config => simp [ofGroups, texts_concat, add, kind, text]
  | stats => simp [ofGroups, texts_concat, add, kind]
  | file name => simp [ofGroups, texts_concat, add, kind, text]

theorem foldl_add_eq (gs : List ArgumentGroup) : gs.foldl add {} = ofGroups gs := by
  induction gs using List.reverseRecOn with
  | nil => rfl
  | append_singleton gs g ih =>
    rw [List.foldl_append, ih, ofGroups_concat]
    rfl

/-! ### One group -/

theorem set_eq_ok_iff {option : ValueOption} {value : String} (short : Bool) :
    o.set option value = .ok o' ↔
      (ArgumentGroup.valued option short value).Proper ∧
        o' = o.add (.valued option short value) := by
  cases option with
  | edit =>
    cases hread : EditScript.read value with
    | ok script => simp [set, Proper, add, hread, eq_comm, Except.toOption]
    | error problem => simp [set, Proper, hread]
  | language | theme | config => simp [set, Proper, add, eq_comm]

theorem setPlain_eq_ok_iff {argument : String} (h : ValueOption.ofArgument? argument = none) :
    o.setPlain argument = .ok o' ↔ ∃ g : ArgumentGroup, g.arguments = [argument] ∧ g.Proper ∧
      (g.kind = .file → o.file = none) ∧ o' = o.add g := by
  constructor
  · intro hset
    unfold setPlain at hset
    split at hset
    · rename_i hstats
      cases hset
      exact ⟨.stats, by rw [hstats]; rfl, trivial, nofun, rfl⟩
    split at hset
    · cases hset
    rename_i hdash
    split at hset
    · rename_i hfree
      cases hset
      exact ⟨.file argument, rfl, hdash, fun _ => Option.isNone_iff_eq_none.mp hfree, rfl⟩
    · cases hset
  · rintro ⟨g, harguments, hproper, hfree, rfl⟩
    cases g with
    | valued option short value => cases harguments
    | stats =>
      cases harguments
      rfl
    | file name =>
      cases harguments
      have hstats : argument ≠ "--stats" := by
        rintro rfl
        exact hproper rfl
      have hnone := Option.isNone_iff_eq_none.mpr (hfree rfl)
      rw [setPlain, if_neg hstats, if_neg hproper, if_pos hnone]
      rfl

/-! ### Lists of arguments -/

/-- Groups that can be added one after the other: no name of a file comes after another. -/
def TakesName (o : Options) (gs : List ArgumentGroup) : Prop :=
  o.file.toList.length + (ofKind gs .file).length ≤ 1

theorem takesName_cons : o.TakesName (g :: gs) ↔
    (g.kind = .file → o.file = none) ∧ (o.add g).TakesName gs := by
  unfold TakesName
  cases g with
  | valued option short value => cases option <;> simp [ofKind_cons, kind, add]
  | stats => simp [ofKind_cons, kind, add]
  | file name =>
    have hone : (ofKind (.file name :: gs) .file).length = (ofKind gs .file).length + 1 := by
      rw [ofKind_cons, if_pos (show (ArgumentGroup.file name).kind = .file from rfl)]
      rfl
    rw [hone]
    cases hfile : o.file with
    | none => simp [kind, add, Nat.add_comm]
    | some other => simp [kind]

theorem takesName_nil : o.TakesName [] := by
  cases hfile : o.file <;> simp [TakesName, ofKind, hfile]

theorem readFrom_groups {args : List String} (h : readFrom o args = .ok o') :
    ∃ gs : List ArgumentGroup, args = gs.flatMap ArgumentGroup.arguments ∧
      (∀ g ∈ gs, g.Proper) ∧ o.TakesName gs ∧ o' = gs.foldl add o := by
  -- Both ways to read one group go on like this.
  have hcons : ∀ {o : Options} {g : ArgumentGroup} {rest : List String}, g.Proper →
      (g.kind = .file → o.file = none) →
      (∃ gs : List ArgumentGroup, rest = gs.flatMap ArgumentGroup.arguments ∧
        (∀ g ∈ gs, g.Proper) ∧ (o.add g).TakesName gs ∧ o' = gs.foldl add (o.add g)) →
      ∃ gs : List ArgumentGroup, g.arguments ++ rest = gs.flatMap ArgumentGroup.arguments ∧
        (∀ g ∈ gs, g.Proper) ∧ o.TakesName gs ∧ o' = gs.foldl add o := by
    rintro o g rest hproper hfree ⟨gs, rfl, hall, htakes, rfl⟩
    exact ⟨g :: gs, rfl, List.forall_mem_cons.mpr ⟨hproper, hall⟩,
      takesName_cons.mpr ⟨hfree, htakes⟩, rfl⟩
  fun_induction readFrom o args with
  | case1 o =>
    cases h
    exact ⟨[], rfl, nofun, takesName_nil, rfl⟩
  | case2 => cases h
  | case3 o argument option hoption value rest ih =>
    cases hset : o.set option value with
    | error problem =>
      rw [hset] at h
      cases h
    | ok next =>
      rw [hset] at h
      obtain ⟨short, rfl⟩ := ValueOption.ofArgument?_eq_some_iff.mp hoption
      obtain ⟨hproper, rfl⟩ := (set_eq_ok_iff short).mp hset
      exact hcons hproper nofun (ih _ h)
  | case4 o argument rest hplain ih =>
    cases hset : o.setPlain argument with
    | error problem =>
      rw [hset] at h
      cases h
    | ok next =>
      rw [hset] at h
      obtain ⟨g, hargument, hproper, hfree, rfl⟩ := (setPlain_eq_ok_iff hplain).mp hset
      rw [← List.singleton_append, ← hargument]
      exact hcons hproper hfree (ih _ h)

theorem readFrom_group (hproper : g.Proper) (hfree : g.kind = .file → o.file = none)
    (rest : List String) : readFrom o (g.arguments ++ rest) = readFrom (o.add g) rest := by
  cases g with
  | valued option short value =>
    have hoption := ValueOption.ofArgument?_eq_some_iff.mpr ⟨short, Eq.refl (option.spelling short)⟩
    have hset := (set_eq_ok_iff (o := o) short).mpr ⟨hproper, rfl⟩
    rw [ArgumentGroup.arguments, List.cons_append, List.cons_append, List.nil_append, readFrom,
      hoption]
    simp only
    rw [hset]
    rfl
  | stats => rfl
  | file name =>
    have hplain := ofArgument?_single hproper rfl
    have hset := (setPlain_eq_ok_iff (o := o) hplain).mpr ⟨_, rfl, hproper, hfree, rfl⟩
    rw [ArgumentGroup.arguments, List.cons_append, List.nil_append, readFrom.eq_def]
    simp only [hplain]
    rw [hset]
    rfl

theorem readFrom_flatMap (hproper : ∀ g ∈ gs, g.Proper) (htakes : o.TakesName gs) :
    readFrom o (gs.flatMap ArgumentGroup.arguments) = .ok (gs.foldl add o) := by
  induction gs generalizing o with
  | nil => rfl
  | cons g gs ih =>
    obtain ⟨hg, hgs⟩ := List.forall_mem_cons.mp hproper
    obtain ⟨hfree, htakes⟩ := takesName_cons.mp htakes
    rw [List.flatMap_cons, readFrom_group hg hfree, ih hgs htakes]
    rfl

theorem read_eq_ok_iff {args : List String} :
    read args = .ok o ↔ ∃ gs, Splits args gs ∧ o = ofGroups gs := by
  constructor
  · intro h
    obtain ⟨gs, hwhole, hproper, htakes, rfl⟩ := readFrom_groups h
    refine ⟨gs, ⟨hwhole, hproper, ?_⟩, foldl_add_eq gs⟩
    simpa [TakesName] using htakes
  · rintro ⟨gs, ⟨rfl, hproper, hname⟩, rfl⟩
    rw [read, readFrom_flatMap hproper (by simpa [TakesName] using hname), foldl_add_eq]

/-- What groups of arguments ask for depends on the order of those of one kind only. -/
theorem ofGroups_congr (h : ∀ kind, ofKind gs' kind = ofKind gs kind) :
    ofGroups gs' = ofGroups gs := by
  simp only [ofGroups, texts, h]

/-- The command line takes exactly the arguments that split into groups, which they do in one way
only. It asks then for the file that is named, for the last value of each option and for all edits,
whatever the order of groups of different kinds. -/
theorem arguments_exact (args : List String) :
    (∀ o, read args = .ok o ↔ ∃ gs, Splits args gs ∧ o = ofGroups gs) ∧
      ∀ gs, Splits args gs → (∀ gs', Splits args gs' → gs' = gs) ∧
        ∀ gs', (∀ kind, ofKind gs' kind = ofKind gs kind) →
          read (gs'.flatMap ArgumentGroup.arguments) = read args := by
  refine ⟨fun o => read_eq_ok_iff, fun gs hsplits => ?_⟩
  refine ⟨fun gs' h => h.unique hsplits, fun gs' h => ?_⟩
  rw [read_eq_ok_iff.mpr ⟨gs', hsplits.of_ofKind_eq h, rfl⟩, read_eq_ok_iff.mpr ⟨gs, hsplits, rfl⟩,
    ofGroups_congr h]

/-- A value that looks like an option, an option given twice, and an edit that may stand anywhere
between the others. -/
theorem arguments_exact_reordered :
    let gs := [.valued .theme true "-l", .file "a.json", .valued .edit false "0..0=x",
      .valued .theme false "dark", .stats]
    read ["-t", "-l", "a.json", "--edit", "0..0=x", "--theme", "dark", "--stats"] =
        .ok (ofGroups gs) ∧
      read ["--edit", "0..0=x", "--stats", "-t", "-l", "--theme", "dark", "a.json"] =
        read ["-t", "-l", "a.json", "--edit", "0..0=x", "--theme", "dark", "--stats"] := by
  intro gs
  have hedit : EditScript.read "0..0=x" = .ok ⟨⟨0, 0⟩, "x"⟩ := by decide +kernel
  have hsplits :
      Splits ["-t", "-l", "a.json", "--edit", "0..0=x", "--theme", "dark", "--stats"] gs :=
    ⟨rfl, by simp [gs, Proper, hedit], by decide⟩
  obtain ⟨hread, horder⟩ := arguments_exact
    ["-t", "-l", "a.json", "--edit", "0..0=x", "--theme", "dark", "--stats"]
  refine ⟨(hread _).mpr ⟨gs, hsplits, rfl⟩, ?_⟩
  refine (horder gs hsplits).2 [.valued .edit false "0..0=x", .stats, .valued .theme true "-l",
    .valued .theme false "dark", .file "a.json"] fun kind => ?_
  rcases kind with option | _ | _
  · cases option <;> decide
  · decide
  · decide

end Options

end LiveHighlight
