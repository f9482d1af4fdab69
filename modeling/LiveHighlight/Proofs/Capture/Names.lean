import LiveHighlight.Capture.Fallback
import Mathlib.Data.List.TakeWhile

/-! What dotted names resolve to. A name resolves to the capture with the longest name among itself
and its beginnings that end before a dot. -/

namespace LiveHighlight.Capture

/-- A text is a dotted name, or begins it and ends before a dot. -/
def Begins (beginning raw : String) : Prop :=
  raw = beginning ∨ ∃ rest, raw = beginning ++ "." ++ rest

/-- The name of a capture is the longest one that begins a text. -/
structure Longest (c : Capture) (raw : String) : Prop where
  begins : Begins c.name raw
  longest : ∀ d : Capture, Begins d.name raw → d.name.length ≤ c.name.length

variable {c d : Capture} {raw beginning : String}

/-! ### Captures and their names -/

theorem mem_all (c : Capture) : c ∈ all := by
  have hrank : all[c.rank]? = some c := by cases c <;> rfl
  exact List.mem_of_getElem? hrank

theorem ofName?_name (c : Capture) : ofName? c.name = some c := by
  have hall : ∀ c ∈ all, ofName? c.name = some c := by decide +kernel
  exact hall c (mem_all c)

theorem ofName?_eq_some_iff : ofName? raw = some c ↔ raw = c.name := by
  constructor
  · intro h
    have hname := List.find?_some (p := fun d : Capture => d.name == raw) h
    exact (beq_iff_eq.mp hname).symm
  · rintro rfl
    exact ofName?_name c

theorem ofName?_eq_none_iff : ofName? raw = none ↔ ∀ c : Capture, raw ≠ c.name := by
  simp only [Option.eq_none_iff_forall_ne_some, ne_eq, ofName?_eq_some_iff]

/-! ### Segments -/

theorem begins_iff : Begins beginning raw ↔ raw.toList = beginning.toList ∨
    ∃ rest, raw.toList = beginning.toList ++ '.' :: rest := by
  constructor
  · rintro (rfl | ⟨rest, rfl⟩)
    · exact .inl rfl
    · exact .inr ⟨rest.toList, by simp⟩
  · rintro (h | ⟨rest, h⟩)
    · exact .inl (String.toList_inj.mp h)
    · refine .inr ⟨String.ofList rest, String.toList_inj.mp ?_⟩
      simpa using h

theorem Begins.refl (raw : String) : Begins raw raw := .inl rfl

theorem Begins.append (h : Begins beginning raw) (tail : String) :
    Begins beginning (raw ++ "." ++ tail) := by
  rcases h with rfl | ⟨rest, rfl⟩
  · exact .inr ⟨tail, rfl⟩
  · exact .inr ⟨rest ++ "." ++ tail, by simp only [String.append_assoc]⟩

theorem Begins.length_le (h : Begins beginning raw) : beginning.length ≤ raw.length := by
  rcases h with rfl | ⟨rest, rfl⟩
  · exact Nat.le_refl _
  · simp only [String.length_append]
    omega

/-- Beginnings of a text that are equally long are equal. -/
theorem Begins.eq_of_length {other : String} (h : Begins beginning raw) (h' : Begins other raw)
    (hlength : beginning.length = other.length) : beginning = other := by
  have hbegins : ∀ {b : String}, Begins b raw → b.toList <+: raw.toList := by
    intro b hb
    rcases begins_iff.mp hb with heq | ⟨rest, heq⟩
    · exact ⟨[], by rw [heq, List.append_nil]⟩
    · exact ⟨_, heq.symm⟩
  apply String.toList_inj.mp
  exact ((List.prefix_of_prefix_length_le (hbegins h) (hbegins h')
    (Nat.le_of_eq hlength)).eq_of_length hlength)

theorem parentName_of_notMem (h : '.' ∉ raw.toList) : parentName raw = none := by
  have hnone : raw.toList.reverse.dropWhile (· ≠ '.') = [] := by
    rw [List.dropWhile_eq_nil_iff]
    intro c hc
    simp only [ne_eq, decide_not, Bool.not_eq_true', decide_eq_false_iff_not]
    rintro rfl
    exact h (List.mem_reverse.mp hc)
  rw [parentName, hnone]

theorem parentName_append (front : String) {segment : String} (h : '.' ∉ segment.toList) :
    parentName (front ++ "." ++ segment) = some front := by
  have hreverse : (front ++ "." ++ segment).toList.reverse =
      segment.toList.reverse ++ '.' :: front.toList.reverse := by simp
  have hsegment : ∀ c ∈ segment.toList.reverse, decide (c ≠ '.') = true := by
    intro c hc
    rw [decide_eq_true_iff]
    rintro rfl
    exact h (List.mem_reverse.mp hc)
  rw [parentName, hreverse, List.dropWhile_append_of_pos hsegment,
    List.dropWhile_cons_of_neg (by decide)]
  simp

/-- A text with a dot has a last segment. -/
theorem exists_lastSegment (h : '.' ∈ raw.toList) :
    ∃ front segment : String, raw = front ++ "." ++ segment ∧ '.' ∉ segment.toList := by
  obtain ⟨segment, front, hsplit, hsegment⟩ := List.eq_append_cons_of_mem (List.mem_reverse.mpr h)
  refine ⟨String.ofList front.reverse, String.ofList segment.reverse, ?_, ?_⟩
  · apply String.toList_inj.mp
    rw [← List.reverse_reverse raw.toList, hsplit]
    simp
  · simpa using hsegment

theorem begins_of_notMem (h : '.' ∉ raw.toList) : Begins beginning raw ↔ raw = beginning := by
  constructor
  · rintro (heq | ⟨rest, rfl⟩)
    · exact heq
    · simp at h
  · exact .inl

/-- What begins a text is the text itself, or begins it without its last segment. -/
theorem begins_append_iff {front segment : String} (h : '.' ∉ segment.toList) :
    Begins beginning (front ++ "." ++ segment) ↔
      front ++ "." ++ segment = beginning ∨ Begins beginning front := by
  constructor
  · rintro (heq | ⟨rest, heq⟩)
    · exact .inl heq
    · right
      have hlist :
          front.toList ++ '.' :: segment.toList = beginning.toList ++ '.' :: rest.toList := by
        have hlist := congrArg String.toList heq
        simpa using hlist
      rw [begins_iff]
      rcases List.append_eq_append_iff.mp hlist with ⟨gap, hfront, hgap⟩ | ⟨gap, hfront, hgap⟩
      · cases gap with
        | nil => exact .inl (by rw [hfront, List.append_nil])
        | cons c gap =>
          -- The last segment would have a dot.
          obtain ⟨-, hsegment⟩ := List.cons.inj hgap
          rw [hsegment] at h
          exact absurd (List.mem_append_right _ List.mem_cons_self) h
      · cases gap with
        | nil => exact .inl (by rw [hfront, List.append_nil])
        | cons c gap =>
          obtain ⟨rfl, -⟩ := List.cons.inj hgap
          exact .inr ⟨gap, hfront⟩
  · rintro (rfl | hfront)
    · exact .refl _
    · exact hfront.append segment

/-! ### Resolving -/

theorem longest_name (c : Capture) : Longest c c.name :=
  ⟨.refl _, fun _ hd => hd.length_le⟩

theorem longest_of_ofName? (h : ofName? raw = some c) : Longest c raw := by
  rw [ofName?_eq_some_iff.mp h]
  exact longest_name c

theorem resolveWithin_succ (count : Nat) (raw : String) : resolveWithin (count + 1) raw =
    match ofName? raw with
    | some capture => some capture
    | none => (parentName raw).bind (resolveWithin count) := rfl

/-- What a text resolves to within as many steps as it has characters. -/
theorem resolveWithin_spec {count : Nat} (h : raw.length ≤ count) :
    (∀ c, resolveWithin count raw = some c → Longest c raw) ∧
      (resolveWithin count raw = none → ∀ c : Capture, ¬ Begins c.name raw) := by
  induction count generalizing raw with
  | zero =>
    have hempty : raw = "" := String.length_eq_zero_iff.mp (Nat.le_zero.mp h)
    refine ⟨fun c => longest_of_ofName?, fun hnone c hbegins => ?_⟩
    rw [hempty] at hnone hbegins
    rw [begins_of_notMem (by simp)] at hbegins
    exact ofName?_eq_none_iff.mp hnone c hbegins
  | succ count ih =>
    rw [resolveWithin_succ]
    cases hname : ofName? raw with
    | some c =>
      refine ⟨fun d hd => ?_, nofun⟩
      cases hd
      exact longest_of_ofName? hname
    | none =>
      have hother := ofName?_eq_none_iff.mp hname
      by_cases hdot : '.' ∈ raw.toList
      · obtain ⟨front, segment, rfl, hsegment⟩ := exists_lastSegment hdot
        have hbegins : ∀ c : Capture,
            Begins c.name (front ++ "." ++ segment) ↔ Begins c.name front := by
          intro c
          rw [begins_append_iff hsegment, or_iff_right (hother c)]
        have hshort : front.length ≤ count := by
          rw [String.length_append, String.length_append] at h
          have hone : ".".length = 1 := rfl
          omega
        obtain ⟨hsome, hnone⟩ := ih hshort
        simp only [parentName_append front hsegment, Option.bind_some, hbegins]
        refine ⟨fun c hc => ⟨(hbegins c).mpr (hsome c hc).begins, fun d hd => ?_⟩, hnone⟩
        exact (hsome c hc).longest d ((hbegins d).mp hd)
      · simp only [parentName_of_notMem hdot, Option.bind_none, begins_of_notMem hdot]
        exact ⟨nofun, fun _ => hother⟩

theorem Longest.unique (h : Longest c raw) (h' : Longest d raw) : c = d := by
  have hlength : c.name.length = d.name.length :=
    Nat.le_antisymm (h'.longest c h.begins) (h.longest d h'.begins)
  have hname := h.begins.eq_of_length h'.begins hlength
  have hsome := ofName?_name c
  rw [hname, ofName?_name d] at hsome
  exact (Option.some.inj hsome).symm

theorem resolve_eq_none_iff : resolve raw = none ↔ ∀ c : Capture, ¬ Begins c.name raw := by
  obtain ⟨hsome, hnone⟩ := resolveWithin_spec (Nat.le_refl raw.length)
  constructor
  · exact hnone
  · intro h
    cases hresolve : resolve raw with
    | none => rfl
    | some c => exact absurd (hsome c hresolve).begins (h c)

theorem resolve_eq_some_iff : resolve raw = some c ↔ Longest c raw := by
  obtain ⟨hsome, hnone⟩ := resolveWithin_spec (Nat.le_refl raw.length)
  constructor
  · exact hsome c
  · intro h
    cases hresolve : resolve raw with
    | none => exact absurd h.begins (resolve_eq_none_iff.mp hresolve c)
    | some d => rw [(hsome d hresolve).unique h]

theorem resolve_name (c : Capture) : resolve c.name = some c :=
  resolve_eq_some_iff.mpr (longest_name c)

/-- More segments do not undo what a name resolves to. -/
theorem resolve_append (h : resolve raw = some c) (tail : String) :
    ∃ d, resolve (raw ++ "." ++ tail) = some d ∧ c.name.length ≤ d.name.length := by
  have hbegins := (resolve_eq_some_iff.mp h).begins.append tail
  cases hresolve : resolve (raw ++ "." ++ tail) with
  | none => exact absurd hbegins (resolve_eq_none_iff.mp hresolve c)
  | some d => exact ⟨d, rfl, (resolve_eq_some_iff.mp hresolve).longest c hbegins⟩

/-- Resolving is looking up the longest name. A text resolves to the capture that has the longest
name among the text and its beginnings that end before a dot, and to none if and only if no capture
has one of them for its name. A capture's own name resolves to it, and a text that resolves to a
capture still resolves with a dot and any text behind it, to one whose name is no shorter. -/
theorem resolve_longest (raw : String) :
    (∀ c, resolve raw = some c ↔ Longest c raw) ∧
      (resolve raw = none ↔ ∀ c : Capture, ¬ Begins c.name raw) ∧
      (∀ c : Capture, resolve c.name = some c) ∧
      ∀ c, resolve raw = some c → ∀ tail, ∃ d, resolve (raw ++ "." ++ tail) = some d ∧
        c.name.length ≤ d.name.length :=
  ⟨fun _ => resolve_eq_some_iff, resolve_eq_none_iff, resolve_name, fun _ => resolve_append⟩

/-- A name with an empty segment behind it, and a text that no name begins. -/
theorem resolve_longest_segments :
    (∃ d, resolve ("function.method" ++ "." ++ ".call") = some d ∧
      functionMethod.name.length ≤ d.name.length) ∧
      ∀ c : Capture, ¬ Begins c.name "local.scope" := by
  obtain ⟨-, -, hname, happend⟩ := resolve_longest "function.method"
  obtain ⟨-, hnone, -⟩ := resolve_longest "local.scope"
  exact ⟨happend functionMethod (hname functionMethod) ".call", hnone.mp (by decide +kernel)⟩

end LiveHighlight.Capture
