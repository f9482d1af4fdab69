import LiveHighlight.Proofs.Capture.Names
import LiveHighlight.Theme
import Mathlib.Data.List.Infix
import Mathlib.Logic.Function.Iterate

/-! Which captures a rule of a theme reaches. A capture falls back to more general ones up to one
that has none more general, and meets none of them twice on the way. It takes the rule of the first
of them that has one, so a new rule reaches the captures that fall back to its own without meeting
another rule before. -/

namespace LiveHighlight

namespace Capture

variable {c d : Capture}

/-! ### Fallback chains -/

/-- No capture is more than three steps from one that falls back to itself. Steps of the fixed list
and of names alternate, and no length of names falls with both. -/
theorem fallback_settles (c : Capture) : fallback (fallback^[3] c) = fallback^[3] c := by
  -- The captures on the way are named, so that the check evaluates each fallback once.
  have hall : ∀ c ∈ all, ∃ d ∈ all, c.fallback = d ∧ ∃ e ∈ all, d.fallback = e ∧
      ∃ f ∈ all, e.fallback = f ∧ f.fallback = f := by decide +kernel
  obtain ⟨d, -, hd, e, -, he, f, -, hf, htop⟩ := hall c (mem_all c)
  have hthree : fallback^[3] c = f := by
    rw [Function.iterate_succ_apply, Function.iterate_succ_apply, Function.iterate_succ_apply, hd,
      he, hf, Function.iterate_zero_apply]
  rw [hthree, htop]

theorem chainWithin_succ (count : Nat) (c : Capture) : chainWithin (count + 1) c =
    if c.fallback = c then [c] else c :: chainWithin count c.fallback := rfl

/-- A chain that comes to its end within the count does not change with a greater count. -/
theorem chainWithin_of_settled {n count : Nat}
    (h : fallback (fallback^[n] c) = fallback^[n] c) (hcount : n ≤ count) :
    chainWithin (count + 1) c = chainWithin count c := by
  induction count generalizing n c with
  | zero =>
    obtain rfl : n = 0 := Nat.le_zero.mp hcount
    exact if_pos h
  | succ count ih =>
    cases n with
    | zero =>
      have htop : c.fallback = c := h
      rw [chainWithin_succ, if_pos htop, chainWithin_succ, if_pos htop]
    | succ n =>
      have hrest := ih (c := c.fallback) (n := n) h (by omega)
      rw [chainWithin_succ, hrest, chainWithin_succ]

/-- A chain goes on with the fallback until there is no other. -/
theorem fallbackChain_eq (c : Capture) :
    c.fallbackChain = if c.fallback = c then [c] else c :: c.fallback.fallbackChain := by
  have hcount : 3 ≤ all.length := by decide +kernel
  rw [fallbackChain, ← chainWithin_of_settled (fallback_settles c) hcount, chainWithin_succ,
    fallbackChain]

theorem fallbackChain_of_top (h : c.fallback = c) : c.fallbackChain = [c] := by
  rw [fallbackChain_eq, if_pos h]

theorem fallbackChain_of_ne (h : c.fallback ≠ c) :
    c.fallbackChain = c :: c.fallback.fallbackChain := by
  rw [fallbackChain_eq, if_neg h]

/-- What holds of the captures without a fallback, and of each that has one if it holds of that,
holds of all. -/
@[elab_as_elim]
theorem fallback_induction {motive : Capture → Prop} (top : ∀ c, c.fallback = c → motive c)
    (step : ∀ c, c.fallback ≠ c → motive c.fallback → motive c) (c : Capture) : motive c := by
  induction hlength : c.fallbackChain.length using Nat.strong_induction_on generalizing c with
  | _ length ih =>
    by_cases h : c.fallback = c
    · exact top c h
    · rw [fallbackChain_of_ne h, List.length_cons] at hlength
      exact step c h (ih _ (by omega) _ rfl)

/-- From each of its captures on, a chain is that capture's own. -/
theorem suffix_of_mem_fallbackChain (h : d ∈ c.fallbackChain) :
    d.fallbackChain <:+ c.fallbackChain := by
  induction c using fallback_induction with
  | top c htop =>
    rw [fallbackChain_of_top htop, List.mem_singleton] at h
    rw [h]
  | step c hne ih =>
    have heq := fallbackChain_of_ne hne
    rw [heq] at h
    rcases List.mem_cons.mp h with rfl | hrest
    · exact List.suffix_rfl
    · rw [heq]
      exact (ih hrest).trans (List.suffix_cons _ _)

theorem nodup_fallbackChain (c : Capture) : c.fallbackChain.Nodup := by
  induction c using fallback_induction with
  | top c htop =>
    rw [fallbackChain_of_top htop]
    simp
  | step c hne ih =>
    rw [fallbackChain_of_ne hne, List.nodup_cons]
    refine ⟨fun hmem => ?_, ih⟩
    -- The chain of the fallback would hold the longer chain of the capture.
    have hlength := (suffix_of_mem_fallbackChain hmem).length_le
    rw [fallbackChain_of_ne hne, List.length_cons] at hlength
    omega

end Capture

namespace Theme

variable {α : Type}

/-! ### Rules -/

/-- Along some captures, a rule for one of them is reached if no capture before it has a rule. -/
def Reaches (rules : List (Capture × α)) (c : Capture) (chain : List Capture) : Prop :=
  c ∈ chain ∧ ∀ e ∈ chain.takeWhile (· ≠ c), rules.lookup e = none

instance (rules : List (Capture × α)) (c : Capture) (chain : List Capture) :
    Decidable (Reaches rules c chain) :=
  inferInstanceAs (Decidable (_ ∧ _))

variable {rules : List (Capture × α)} {c e : Capture} {chain : List Capture}

theorem not_reaches_nil : ¬ Reaches rules c [] := fun h => nomatch h.1

theorem reaches_cons_self : Reaches rules c (c :: chain) := by
  simp [Reaches]

theorem reaches_cons_iff (h : e ≠ c) :
    Reaches rules c (e :: chain) ↔ rules.lookup e = none ∧ Reaches rules c chain := by
  have hbefore : (e :: chain).takeWhile (· ≠ c) = e :: chain.takeWhile (· ≠ c) :=
    List.takeWhile_cons_of_pos (by simpa using h)
  rw [Reaches, hbefore, List.forall_mem_cons, List.mem_cons, or_iff_right h.symm, Reaches]
  exact and_left_comm

theorem lookup_cons_of_ne (h : e ≠ c) (x : α) :
    ((c, x) :: rules).lookup e = rules.lookup e := by
  rw [List.lookup_cons, beq_false_of_ne h]

/-- The first rule along some captures, once there is another rule. -/
theorem findSome?_lookup_cons (x : α) :
    chain.findSome? (((c, x) :: rules).lookup ·) =
      if Reaches rules c chain then some x else chain.findSome? (rules.lookup ·) := by
  induction chain with
  | nil => rw [if_neg not_reaches_nil, List.findSome?_nil, List.findSome?_nil]
  | cons e chain ih =>
    by_cases he : e = c
    · subst he
      rw [if_pos reaches_cons_self, List.findSome?_cons, List.lookup_cons_self]
    · rw [List.findSome?_cons, List.findSome?_cons, lookup_cons_of_ne he]
      cases hrule : rules.lookup e with
      | some y =>
        have hnot : ¬ Reaches rules c (e :: chain) := by
          rw [reaches_cons_iff he, hrule]
          exact fun h => nomatch h.1
        rw [if_neg hnot]
      | none =>
        have hiff : Reaches rules c (e :: chain) ↔ Reaches rules c chain := by
          rw [reaches_cons_iff he, hrule, eq_self_iff_true, true_and]
        simp only [ih, hiff]

theorem colourFor_setColour (t : Theme) (c d : Capture) (x : Colour) :
    (t.setColour c x).colourFor (some d) =
      if Reaches t.colours c d.fallbackChain then x else t.colourFor (some d) := by
  simp only [colourFor, setColour, Option.bind_some, findSome?_lookup_cons]
  rw [apply_ite (Option.getD · t.foreground), Option.getD_some]

theorem fontFor_setFont (t : Theme) (c d : Capture) (f : Font) :
    (t.setFont c f).fontFor (some d) =
      if Reaches t.fonts c d.fallbackChain then f else t.fontFor (some d) := by
  simp only [fontFor, setFont, Option.bind_some, findSome?_lookup_cons]
  rw [apply_ite (Option.getD · ({} : Font)), Option.getD_some]

theorem fontFor_setColour (t : Theme) (c : Capture) (x : Colour) (e : Option Capture) :
    (t.setColour c x).fontFor e = t.fontFor e := rfl

theorem colourFor_setFont (t : Theme) (c : Capture) (f : Font) (e : Option Capture) :
    (t.setFont c f).colourFor e = t.colourFor e := rfl

theorem attributesFor_none (t : Theme) : t.attributesFor none = ⟨t.foreground, {}⟩ := rfl

/-- A new rule of a theme, whatever rules it has, reaches exactly the captures that fall back to the
rule's own with no rule of that kind before it: these take the rule, and all others keep what they
have. A colour rule changes no font and a font rule no colour, and neither changes the attributes
of text without a capture. The captures that a capture falls back to are those met by falling back
until there is no other, and it meets none of them twice. -/
theorem rule_reaches (t : Theme) (c d : Capture) (x : Colour) (f : Font) :
    ((t.setColour c x).colourFor (some d) =
        if Reaches t.colours c d.fallbackChain then x else t.colourFor (some d)) ∧
      ((t.setFont c f).fontFor (some d) =
        if Reaches t.fonts c d.fallbackChain then f else t.fontFor (some d)) ∧
      (∀ e, (t.setColour c x).fontFor e = t.fontFor e) ∧
      (∀ e, (t.setFont c f).colourFor e = t.colourFor e) ∧
      (t.setColour c x).attributesFor none = t.attributesFor none ∧
      (t.setFont c f).attributesFor none = t.attributesFor none ∧
      (d.fallbackChain = if d.fallback = d then [d] else d :: d.fallback.fallbackChain) ∧
      d.fallbackChain.Nodup :=
  ⟨colourFor_setColour t c d x, fontFor_setFont t c d f, fontFor_setColour t c x,
    colourFor_setFont t c f, attributesFor_none (t.setColour c x),
    attributesFor_none (t.setFont c f), d.fallbackChain_eq, d.nodup_fallbackChain⟩

/-- A rule for macros, which fall back to functions, comes before one for functions. -/
example :
    let t := ((plain "Test").setColour .function ⟨1000, 0, 0, 1000⟩).setColour .functionMacro
      ⟨0, 1000, 0, 1000⟩
    t.colourFor (some .functionMacro) = ⟨0, 1000, 0, 1000⟩ ∧
      t.colourFor (some .functionCall) = ⟨1000, 0, 0, 1000⟩ := by
  decide +kernel

end Theme

end LiveHighlight
