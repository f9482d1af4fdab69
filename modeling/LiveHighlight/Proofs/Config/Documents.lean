import LiveHighlight.Proofs.Config.Reading

/-! Documents describe the configurations that they list: settings come in any order and stand among
members nobody reads, and those left out have their defaults. All keys are read, also those of
members nobody reads, so a document is refused if one of them writes no characters. -/

namespace LiveHighlight

open ConfigText

/-! ### Settings and other members -/

namespace Config

/-- The configuration with some settings of `c` and the defaults of the others. -/
def only (c : Config) (listed : List Setting) : Config where
  parseTimeoutMicros :=
    if .parseTimeout ∈ listed then c.parseTimeoutMicros else ({} : Config).parseTimeoutMicros
  queryBudgetMicros :=
    if .queryBudget ∈ listed then c.queryBudgetMicros else ({} : Config).queryBudgetMicros
  queryMatchLimit :=
    if .matchLimit ∈ listed then c.queryMatchLimit else ({} : Config).queryMatchLimit
  maxExtensionBytes :=
    if .maxExtension ∈ listed then c.maxExtensionBytes else ({} : Config).maxExtensionBytes
  backgroundQueries :=
    if .background ∈ listed then c.backgroundQueries else ({} : Config).backgroundQueries

/-- The order of the settings does not matter. -/
theorem only_perm (c : Config) {listed listed' : List Setting} (h : listed.Perm listed') :
    c.only listed = c.only listed' := by
  simp only [only, h.mem_iff]

/-- One more setting changes only its own value. -/
theorem only_cons (c : Config) (s : Setting) (listed : List Setting) :
    c.only (s :: listed) = match s with
      | .parseTimeout => { c.only listed with parseTimeoutMicros := c.parseTimeoutMicros }
      | .queryBudget => { c.only listed with queryBudgetMicros := c.queryBudgetMicros }
      | .matchLimit => { c.only listed with queryMatchLimit := c.queryMatchLimit }
      | .maxExtension => { c.only listed with maxExtensionBytes := c.maxExtensionBytes }
      | .background => { c.only listed with backgroundQueries := c.backgroundQueries } := by
  cases s <;> simp [only]

theorem only_nil (c : Config) : c.only [] = {} := rfl

theorem only_all (c : Config) : c.only Setting.all = c := rfl

end Config

namespace ConfigInput

variable {input : ConfigInput} {rest : List Char} {c : Config}

theorem settingValue_reads (s : Setting) (seen : List Setting) {blanks : List Char}
    (hb : Blank blanks) (hrest : Halts rest)
    (h : input.rest = blanks ++ ((c.valueText s).toList ++ rest)) :
    Reads (settingValue (c.only seen) s input) (c.only (s :: seen)) rest := by
  cases s with
  | parseTimeout =>
    refine (unsigned_reads c.parseTimeoutMicros.toNat_lt (Nat.le_refl _) "u64" hb hrest h).bind
      fun out hout => ⟨out, ?_, hout⟩
    simp only [UInt64.ofNat_toNat, Config.only_cons]
    rfl
  | queryBudget =>
    refine (unsigned_reads c.queryBudgetMicros.toNat_lt (Nat.le_refl _) "u64" hb hrest h).bind
      fun out hout => ⟨out, ?_, hout⟩
    simp only [UInt64.ofNat_toNat, Config.only_cons]
    rfl
  | matchLimit =>
    refine (unsigned_reads c.queryMatchLimit.toNat_lt (by decide) "u32" hb hrest h).bind
      fun out hout => ⟨out, ?_, hout⟩
    simp only [UInt32.ofNat_toNat, Config.only_cons]
    rfl
  | maxExtension =>
    refine (unsigned_reads c.maxExtensionBytes.toNat_lt (Nat.le_refl _) "usize" hb hrest h).bind
      fun out hout => ⟨out, ?_, hout⟩
    simp only [UInt64.ofNat_toNat, Config.only_cons]
    rfl
  | background =>
    refine (boolean_reads c.backgroundQueries hb h).bind fun out hout => ⟨out, ?_, hout⟩
    simp only [Config.only_cons]
    rfl

end ConfigInput

namespace Setting

theorem ofKey?_key (s : Setting) : ofKey? s.key = some s := by
  cases s <;> rfl

theorem ofKey?_eq_none {key : String} (h : ∀ s : Setting, key ≠ s.key) : ofKey? key = none := by
  rw [ofKey?, List.find?_eq_none]
  intro s _ heq
  exact h s (eq_of_beq heq).symm

end Setting

namespace Config

/-- What a member of a document tells of a configuration: the value of a setting, or nothing. The
value is a word or a whole number without a sign. A key may be written with escapes, and one that
writes no setting's key may hold any units. -/
inductive Entry (c : Config) (m : Member) : Option Setting → Prop
  | setting {s : Setting} : Writes s.key.toList m.key →
      m.content.value = (c.valueText s).toList → Entry c m (some s)
  | unknown : Quotable m.key → (∀ s : Setting, ¬ Writes s.key.toList m.key) →
      Value m.content.value → Entry c m none

/-- The members of a document and the settings of a configuration that they list, in their order. -/
inductive Lists (c : Config) : List Member → List Setting → Prop
  | nil : Lists c [] []
  | cons {m : Member} {found : Option Setting} {ms : List Member} {listed : List Setting} :
      m.Spaced → Entry c m found → Lists c ms listed → Lists c (m :: ms) (found.toList ++ listed)

end Config

namespace ConfigInput

variable {input : ConfigInput} {rest : List Char} {c : Config}

theorem colon_leaves {gap : List Char} (hb : Blank gap) (h : input.rest = gap ++ ':' :: rest) :
    Leaves input.colon rest := by
  simp only [colon, skipBlanks_rest hb (show isBlank ':' = false from rfl) h, if_true]
  exact .of_eq (advance_rest _ _ _)

/-- A member with a legible key is read up to the blanks after its value. -/
theorem member_reads {m : Member} {found : Option Setting} {seen : List Setting} {tail : List Char}
    (hspaced : m.Spaced) (hentry : Config.Entry c m found) (hlegible : Legible m.key)
    (hnew : ∀ s ∈ found, s ∉ seen) (htail : Halts tail)
    (h : input.rest = m.key ++ '"' :: (m.gap ++ ':' :: (m.content.text ++ tail))) :
    ∃ out, member (c.only seen) seen input =
        .ok (c.only (found.toList ++ seen), found.toList ++ seen, out) ∧
      out.rest = m.content.after ++ tail := by
  have hend : Halts (m.content.after ++ tail) := htail.append hspaced.content.after
  have hcontent : ∀ {after : ConfigInput}, after.rest = m.content.text ++ tail →
      after.rest = m.content.before ++ (m.content.value ++ (m.content.after ++ tail)) := by
    intro after hafter
    rw [hafter, Padded.text, List.append_assoc, List.append_assoc]
  cases hentry with
  | @setting s hkey hvalue =>
    obtain ⟨named, hnamed, hrest⟩ := text_reads hkey h
    obtain ⟨after, hafter, hrest⟩ := colon_leaves hspaced.gap hrest
    have hrest := hcontent hrest
    rw [hvalue] at hrest
    obtain ⟨out, hout, hrest⟩ := settingValue_reads s seen hspaced.content.before hend hrest
    refine ⟨out, ?_, hrest⟩
    rw [String.ofList_toList] at hnamed
    simp only [member, hnamed, ok_bind, Setting.ofKey?_key, hnew s rfl, if_false, hafter, hout]
    rfl
  | unknown _ hkeys hvalue =>
    obtain ⟨cs, hkey⟩ := hlegible
    obtain ⟨named, hnamed, hrest⟩ := text_reads hkey h
    obtain ⟨after, hafter, hrest⟩ := colon_leaves hspaced.gap hrest
    obtain ⟨out, hout, hrest⟩ :=
      skipAnyValue_leaves hvalue hspaced.content.before hend (hcontent hrest)
    have hnone : Setting.ofKey? (String.ofList cs) = none := by
      refine Setting.ofKey?_eq_none fun s heq => hkeys s ?_
      rw [← heq, String.toList_ofList]
      exact hkey
    refine ⟨out, ?_, hrest⟩
    simp only [member, hnamed, ok_bind, hnone, hafter, hout]
    rfl

/-- The key of a setting is legible, so a member whose key is not has nothing else to tell. -/
theorem member_refused {m : Member} {found : Option Setting} {seen : List Setting}
    {config : Config} (hentry : Config.Entry c m found) (hbad : ¬ Legible m.key)
    (h : input.rest = m.key ++ '"' :: rest) : Refused (member config seen input) := by
  cases hentry with
  | setting hkey => exact absurd ⟨_, hkey⟩ hbad
  | unknown hkey => exact (text_refused hkey hbad h).bind _

/-! ### Documents -/

/-- Reading gives a configuration if the keys ahead are legible, and is refused if they are not. -/
structure Answers (legible : Prop) (result : Except ConfigFailure (Config × ConfigInput))
    (c : Config) (rest : List Char) : Prop where
  reads : legible → Reads result c rest
  refused : ¬ legible → Refused result

theorem Answers.of_reads {legible : Prop}
    {result : Except ConfigFailure (Config × ConfigInput)} (hlegible : legible)
    (h : Reads result c rest) : Answers legible result c rest :=
  ⟨fun _ => h, fun hnot => absurd hlegible hnot⟩

/-- The members after one are read from the blanks after its value. -/
theorem member_bind {m : Member} {found : Option Setting} {seen listed : List Setting}
    {tail : List Char} {count : Nat} {legible : Prop} (hspaced : m.Spaced)
    (hentry : Config.Entry c m found) (hnew : ∀ s ∈ found, s ∉ seen) (htail : Halts tail)
    (h : input.rest = m.key ++ '"' :: (m.gap ++ ':' :: (m.content.text ++ tail)))
    (hnext : ∀ out, out.rest = m.content.after ++ tail →
      Answers legible
        (members (c.only (found.toList ++ seen)) (found.toList ++ seen) false count out)
        (c.only listed) rest) :
    Answers (Legible m.key ∧ legible) (member (c.only seen) seen input >>=
      fun (config, seen, input) => members config seen false count input) (c.only listed) rest := by
  by_cases hkey : Legible m.key
  · obtain ⟨out, hread, hout⟩ := member_reads hspaced hentry hkey hnew htail h
    rw [hread, and_iff_right hkey]
    exact hnext out hout
  · exact ⟨fun hall => absurd hall.1 hkey, fun _ => (member_refused hentry hkey h).bind _⟩

theorem members_close {config : Config} {seen : List Setting} {first : Bool} {count : Nat}
    {blanks : List Char} (hb : Blank blanks) (h : input.rest = blanks ++ '\x7d' :: rest) :
    Reads (members config seen first (count + 1) input) config rest := by
  simp only [members, skipBlanks_rest hb (show isBlank '\x7d' = false from rfl) h, if_true]
  exact ⟨_, rfl, advance_rest _ _ _⟩

theorem members_first (config : Config) (seen : List Setting) (count : Nat) {blanks : List Char}
    (hb : Blank blanks) (h : input.rest = blanks ++ '"' :: rest) :
    members config seen true (count + 1) input =
      member config seen (input.skipBlanks.advance '"' rest) >>= fun (config, seen, input) =>
        members config seen false count input := by
  simp only [members, skipBlanks_rest hb (show isBlank '"' = false from rfl) h]
  rfl

theorem members_comma (config : Config) (seen : List Setting) (count : Nat)
    {blanks before : List Char} (hb : Blank blanks) (hbefore : Blank before)
    (h : input.rest = blanks ++ ',' :: (before ++ '"' :: rest)) :
    members config seen false (count + 1) input =
      member config seen
        ((input.skipBlanks.advance ',' (before ++ '"' :: rest)).skipBlanks.advance '"' rest) >>=
      fun (config, seen, input) => members config seen false count input := by
  simp only [members, skipBlanks_rest hb (show isBlank ',' = false from rfl) h,
    skipBlanks_rest hbefore (show isBlank '"' = false from rfl) (advance_rest _ ',' _)]
  rfl

theorem new_of_nodup {found : Option Setting} {seen listed : List Setting}
    (h : (listed ++ (found.toList ++ seen)).Nodup) : ∀ s ∈ found, s ∉ seen := by
  have hparts := List.nodup_append.mp (List.nodup_append.mp h).2.1
  intro s hs hseen
  exact hparts.2.2 s (Option.mem_toList.mpr hs) s hseen rfl

/-- The settings read so far stand in the configuration, and those that follow join them. -/
theorem members_more {ms : List Member} {listed seen : List Setting}
    (hlists : Config.Lists c ms listed) (hnodup : (listed ++ seen).Nodup) {count : Nat}
    {blanks : List Char} (hb : Blank blanks) (hcount : ms.length < count)
    (h : input.rest = blanks ++ (commas (ms.map Member.text) ++ '\x7d' :: rest)) :
    Answers (∀ m ∈ ms, Legible m.key) (members (c.only seen) seen false count input)
      (c.only (listed ++ seen)) rest := by
  induction hlists generalizing seen count input blanks with
  | nil =>
    obtain ⟨count, rfl⟩ := Nat.exists_eq_add_one.mpr (Nat.zero_lt_of_lt hcount)
    exact .of_reads (List.forall_mem_nil _) (members_close hb h)
  | @cons m found ms listed hm hentry _ ih =>
    obtain ⟨count, rfl⟩ := Nat.exists_eq_add_one.mpr (Nat.zero_lt_of_lt hcount)
    have hmove : (found.toList ++ listed ++ seen).Perm (listed ++ (found.toList ++ seen)) := by
      rw [List.append_assoc]
      exact List.perm_append_comm_assoc _ _ _
    have hnodup := hmove.nodup_iff.mp hnodup
    simp only [List.map_cons, commas_cons, List.append_assoc, List.cons_append, m.text_append] at h
    rw [members_comma _ _ _ hb hm.before h, c.only_perm hmove, List.forall_mem_cons]
    refine member_bind hm hentry (new_of_nodup hnodup) (halts_commas (by decide) _ _)
      (advance_rest _ _ _) fun out hout => ?_
    exact ih hnodup hm.content.after (Nat.lt_of_succ_lt_succ hcount) hout

/-- All the members of a document. -/
theorem members_all {ms : List Member} {listed : List Setting} (hlists : Config.Lists c ms listed)
    (hnodup : listed.Nodup) {count : Nat} {blanks : List Char} (hb : Blank blanks)
    (hcount : ms.length < count)
    (h : input.rest = separated blanks (ms.map Member.text) ++ '\x7d' :: rest) :
    Answers (∀ m ∈ ms, Legible m.key) (members {} [] true count input) (c.only listed) rest := by
  obtain ⟨count, rfl⟩ := Nat.exists_eq_add_one.mpr (Nat.zero_lt_of_lt hcount)
  cases hlists with
  | nil => exact .of_reads (List.forall_mem_nil _) (members_close hb h)
  | @cons m found ms listed hm hentry hlists =>
    have hmove : (found.toList ++ listed).Perm (listed ++ (found.toList ++ [])) := by
      rw [List.append_nil]
      exact List.perm_append_comm
    have hnodup := hmove.nodup_iff.mp hnodup
    simp only [List.map_cons, separated_cons, List.append_assoc] at h
    rw [m.text_append] at h
    rw [members_first _ _ _ hm.before h, c.only_perm hmove, ← c.only_nil, List.forall_mem_cons]
    have hend := halts_commas (show '\x7d' ∈ [']', '\x7d'] by decide) (ms.map Member.text) rest
    refine member_bind hm hentry (new_of_nodup hnodup) hend (advance_rest _ _ _) fun out hout => ?_
    exact members_more hlists hnodup hm.content.after (Nat.lt_of_succ_lt_succ hcount) hout

theorem document_answers {ms : List Member} {listed : List Setting} {lead blanks : List Char}
    (hlead : Blank lead) (hblanks : Blank blanks) (hlists : Config.Lists c ms listed)
    (hnodup : listed.Nodup)
    (h : input.rest =
      lead ++ '\x7b' :: (separated blanks (ms.map Member.text) ++ '\x7d' :: rest)) :
    Answers (∀ m ∈ ms, Legible m.key) input.document (c.only listed) rest := by
  simp only [document, skipBlanks_rest hlead (show isBlank '\x7b' = false from rfl) h]
  refine members_all hlists hnodup hblanks ?_ (advance_rest _ _ _)
  have hlength := length_le_separated blanks ms
  rw [List.length_append]
  omega

end ConfigInput

namespace Config

/-- A document with the members `ms`, or some blanks if there are none. -/
def documentText (lead blanks trail : List Char) (ms : List Member) : String :=
  String.ofList (lead ++ '\x7b' :: (separated blanks (ms.map Member.text) ++ '\x7d' :: trail))

theorem read_documentText {c : Config} {ms : List Member} {listed : List Setting}
    {lead blanks trail : List Char} (hlead : Blank lead) (hblanks : Blank blanks)
    (htrail : Blank trail) (hlists : c.Lists ms listed) (hnodup : listed.Nodup) :
    ((∀ m ∈ ms, Legible m.key) →
      read (documentText lead blanks trail ms) = .ok (c.only listed)) ∧
    ((∃ m ∈ ms, ¬ Legible m.key) →
      ConfigInput.Refused (read (documentText lead blanks trail ms))) := by
  have hinput : (ConfigInput.ofString (documentText lead blanks trail ms)).rest =
      lead ++ '\x7b' :: (separated blanks (ms.map Member.text) ++ '\x7d' :: trail) :=
    String.toList_ofList
  have hanswers := ConfigInput.document_answers hlead hblanks hlists hnodup hinput
  constructor
  · intro hlegible
    obtain ⟨out, hout, hrest⟩ := hanswers.reads hlegible
    have hend : out.skipBlanks.rest = [] := by
      rw [ConfigInput.skipBlanks, ConfigInput.skipBlanksFrom_rest, hrest, ← List.append_nil trail,
        List.dropWhile_append_of_pos (ConfigInput.isBlank_of_blank htrail), List.dropWhile_nil]
    rw [read, hout, ConfigInput.ok_bind]
    simp only [hend]
    rfl
  · rintro ⟨m, hm, hbad⟩
    exact (hanswers.refused fun hall => hbad (hall m hm)).bind _

/-! ### Compact documents -/

/-- A setting as a member without blanks or escapes. -/
def compactMember (c : Config) (s : Setting) : Member where
  before := []
  key := s.key.toList
  gap := []
  content := ⟨[], (c.valueText s).toList, []⟩

/-- Plain characters write themselves and nothing else. -/
theorem writes_iff_of_plain {cs written : List Char} (h : written.all (Plain ·) = true) :
    Writes cs written ↔ cs = written := by
  have hslash : ¬ Plain '\\' := by decide
  induction written generalizing cs with
  | nil =>
    constructor
    · intro hw
      cases hw
      rfl
    · rintro rfl
      exact .nil
  | cons c written ih =>
    rw [List.all_cons, Bool.and_eq_true, decide_eq_true_eq] at h
    constructor
    · intro hw
      cases hw with
      | plain _ hw => rw [(ih h.2).mp hw]
      | short | unit | pair => exact absurd h.1 hslash
    · rintro rfl
      exact .plain h.1 ((ih h.2).mpr rfl)

theorem writes_key (s : Setting) : Writes s.key.toList s.key.toList := by
  refine (writes_iff_of_plain ?_).mpr rfl
  cases s <;> decide +kernel

theorem lists_compact (c : Config) (listed : List Setting) :
    c.Lists (listed.map c.compactMember) listed := by
  induction listed with
  | nil => exact .nil
  | cons s listed ih => exact .cons ⟨.nil, .nil, .nil, .nil⟩ (.setting (writes_key s) rfl) ih

theorem legible_compact (c : Config) (listed : List Setting) :
    ∀ m ∈ listed.map c.compactMember, Legible m.key := by
  rw [List.forall_mem_map]
  exact fun s _ => ⟨_, writes_key s⟩

theorem toList_member (c : Config) (s : Setting) :
    (c.member s).toList = (c.compactMember s).text := by
  simp only [member, String.toList_append, Member.text, Padded.text, compactMember,
    List.nil_append, List.append_nil, List.append_assoc]
  rfl

theorem render_eq (c : Config) :
    c.render = documentText [] [] [] (Setting.all.map c.compactMember) := by
  have hmembers : (Setting.all.map c.member).map String.toList =
      (Setting.all.map c.compactMember).map Member.text := by
    simp only [List.map_map, Function.comp_def, toList_member]
  rw [← String.toList_inj, render, documentText, String.toList_ofList]
  simp only [String.toList_append, String.toList_intercalate, hmembers, List.append_assoc]
  rfl

/-- A document whose keys are all legible gives a configuration the settings that it lists, each at
most once, whatever order they come in and whatever stands among them; settings that it does not
list have their defaults. With a key that is not legible it is refused. The compact document of a
configuration gives back that configuration. -/
theorem read_exact (c : Config) :
    read c.render = .ok c ∧
    ∀ (lead blanks trail : List Char) (ms : List Member) (listed : List Setting),
      Blank lead → Blank blanks → Blank trail → c.Lists ms listed → listed.Nodup →
      ((∀ m ∈ ms, Legible m.key) →
        read (documentText lead blanks trail ms) = .ok (c.only listed)) ∧
      ((∃ m ∈ ms, ¬ Legible m.key) →
        ConfigInput.Refused (read (documentText lead blanks trail ms))) := by
  constructor
  · rw [render_eq, (read_documentText .nil .nil .nil (c.lists_compact Setting.all) (by decide)).1
      (c.legible_compact Setting.all), only_all]
  · intro lead blanks trail ms listed hlead hblanks htrail hlists hnodup
    exact read_documentText hlead hblanks htrail hlists hnodup

/-- An unknown key whose value has brackets inside a text, before a setting whose key has an
escape. -/
theorem read_exact_escapes :
    read "\x7b\"note\":[\x7b\"a\":\"]\x7d\"\x7d], \"\\u0071uery_match_limit\": 7\x7d" =
      .ok { queryMatchLimit := 7 } := by
  let c : Config := { queryMatchLimit := 7 }
  let object : List Char := ['\x7b', '"', 'a', '"', ':', '"', ']', '\x7d', '"', '\x7d']
  let note : Member := ⟨[], "note".toList, [], ⟨[], '[' :: object ++ [']'], []⟩⟩
  let limit : Member :=
    ⟨[' '], ['\\', 'u', '0', '0', '7', '1'] ++ "uery_match_limit".toList, [], ⟨[' '], ['7'], []⟩⟩
  have hspace : Blank [' '] := by decide
  have hobject : Value object :=
    @Value.object [] [⟨[], ['a'], [], ⟨[], ['"', ']', '\x7d', '"'], []⟩⟩] .nil
      (List.forall_mem_singleton.mpr ⟨⟨.nil, .nil, .nil, .nil⟩, .plain (by decide) .nil⟩)
      (List.forall_mem_singleton.mpr (.text (.plain (by decide) (.plain (by decide) .nil))))
  have harray : Value note.content.value :=
    @Value.array [] [⟨[], object, []⟩] .nil (List.forall_mem_singleton.mpr ⟨.nil, .nil⟩)
      (List.forall_mem_singleton.mpr hobject)
  have hplain : note.key.all (Plain ·) = true := by decide +kernel
  have hquotable : Quotable note.key := .plain (by decide) (.plain (by decide)
    (.plain (by decide) (.plain (by decide) .nil)))
  have hnote : c.Entry note none := .unknown hquotable
    (fun s => by rw [writes_iff_of_plain hplain]; cases s <;> decide +kernel) harray
  have hletter : HexUnit ['0', '0', '7', '1'] (((0 * 16 + 0) * 16 + 7) * 16 + 1) :=
    .digits (.inl rfl) (.inl rfl) (.inl rfl) (.inl rfl)
  have hrest : Writes "uery_match_limit".toList "uery_match_limit".toList :=
    (writes_iff_of_plain (by decide +kernel)).mpr rfl
  have hkey : Writes Setting.matchLimit.key.toList limit.key := @Writes.unit 'q' _ _ _ hletter hrest
  have hlimit : c.Entry limit (some .matchLimit) := .setting hkey (by decide +kernel)
  refine ((read_exact c).2 [] [] [] [note, limit] [.matchLimit] .nil .nil .nil
    (.cons ⟨.nil, .nil, .nil, .nil⟩ hnote (.cons ⟨hspace, .nil, hspace, .nil⟩ hlimit .nil))
    (by decide)).1 ?_
  rw [List.forall_mem_cons, List.forall_mem_singleton]
  exact ⟨⟨_, (writes_iff_of_plain hplain).mpr rfl⟩, ⟨_, hkey⟩⟩

/-- A value may be an object whose key is the first half of a pair of units without the second. As a
document it lists no setting and is refused all the same. The value of a setting is no number with
a sign, not even a zero. -/
theorem read_unpaired_key :
    Value "\x7b\"\\ud800\":0\x7d".toList ∧
    (∃ ms, ({} : Config).Lists ms [] ∧
      documentText [] [] [] ms = "\x7b\"\\ud800\":0\x7d") ∧
    read "\x7b\"\\ud800\":0\x7d" = .error ⟨.unfinishedSurrogate, 1, 9⟩ ∧
    ∃ failure, read "\x7b\"query_match_limit\":-0\x7d" = .error failure := by
  let half : Member := ⟨[], ['\\', 'u', 'd', '8', '0', '0'], [], ⟨[], ['0'], []⟩⟩
  have hunit : HexUnit ['d', '8', '0', '0'] (((13 * 16 + 8) * 16 + 0) * 16 + 0) :=
    .digits (.inl rfl) (.inl rfl) (.inl rfl) (.inl rfl)
  have hquotable : Quotable half.key := .unit hunit .nil
  have hspaced : half.Spaced := ⟨.nil, .nil, .nil, .nil⟩
  have hzero : Value half.content.value :=
    .number (@Number.parts [] ['0'] [] [] (by decide)
      ⟨⟨List.cons_ne_nil _ _, List.forall_mem_singleton.mpr rfl⟩, fun _ => rfl⟩ .none .none)
  have hunset : ∀ s : Setting, ¬ Writes s.key.toList half.key := by
    intro s hkey
    have hread : ConfigInput.Reads (ConfigInput.text ⟨half.key ++ ['"'], 1, 0⟩)
        (String.ofList s.key.toList) [] := ConfigInput.text_reads hkey rfl
    obtain ⟨out, hout, -⟩ := hread
    cases hout
  refine ⟨?_, ⟨[half], .cons hspaced (.unknown hquotable hunset hzero) .nil, rfl⟩, rfl, _, rfl⟩
  exact @Value.object [] [half] .nil (List.forall_mem_singleton.mpr ⟨hspaced, hquotable⟩)
    (List.forall_mem_singleton.mpr hzero)

end Config

end LiveHighlight
