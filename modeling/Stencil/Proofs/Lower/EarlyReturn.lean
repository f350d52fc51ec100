import Stencil.Lower.Module

/-!
# Early returns

A function that returns markup is read for the values it returns, each under the test that guards
it. Running the function takes one of these values, or none. `Course` holds what a run depends on,
and `Course.run` runs statements by themselves, without a look at what is read.

Only some returns are read: those at the top of the body, and those of a chain of `if` and `else if`
there, as long as each consequent does nothing but return a value (`Stmt.lone?`). All other
statements are passed over with whatever they return or throw. `Course.Loses` says that a run ends
in such a statement:

* in braces of their own (`Loses.block`);
* in an `if` whose consequent does something else than return a value, and in what follows it in
  its chain (`LosesIn.passed`);
* in the last part of a chain, if that is not a lone return either (`LosesIn.alternate`);
* in a statement of another kind, such as a loop or a `throw` (`Loses.other`).

The main theorem is `selected?_returned`: a run that loses no return gives the first value whose
test is true. A run that loses one need not (`early_return_behind_declaration`).
-/

namespace Stencil

open Script (Expr Stmt Body Function Part)

/-! ### Runs -/

/-- How a statement ends: the run goes on behind it, or the function returns, or it throws. -/
inductive Ending where
  | onward
  | returned (value : Option Expr)
  | thrown

/-- What the function returns, where `later` is what it returns behind the statement. A function
that throws returns nothing. -/
def Ending.followedBy (later : Option Expr) : Ending → Option Expr
  | .onward => later
  | .returned value => value
  | .thrown => none

/-- What a run through a body depends on: the truth of the tests, and how the statements end that
are not looked into, such as the declaration of a class, a loop or a `throw`. -/
structure Course where
  holds : Expr → Bool
  other : List Part → Ending

namespace Course

variable (c : Course)

mutual

/-- How a statement ends. -/
def run : Stmt → Ending
  | .ret value => .returned value
  | .branch test consequent alternate =>
    if c.holds test then run consequent else runOption alternate
  | .block statements => runAll statements
  | .expression _ | .declaration _ _ | .function _ => .onward
  | .other parts => c.other parts

/-- How statements end, one after the other up to one that the run does not go on behind. -/
def runAll : List Stmt → Ending
  | [] => .onward
  | s :: rest =>
    match run s with
    | .onward => runAll rest
    | .returned value => .returned value
    | .thrown => .thrown

def runOption : Option Stmt → Ending
  | none => .onward
  | some s => run s

end

/-- What a function with this body returns. -/
def returned? : Body → Option Expr
  | .value e => some e
  -- Running to the end of the statements returns nothing.
  | .block statements => (c.runAll statements).followedBy none

/-- The value that is selected from returns: that of the first one whose test is true. -/
def selected? : List Lower.Return → Option Expr
  | [] => none
  | r :: rest =>
    match r.test with
    | none => some r.value
    | some test => if c.holds test then some r.value else selected? rest

end Course

/-! ### Returns that are lost -/

/-- The value that a statement returns, if it does nothing else. -/
def Script.Stmt.lone? : Stmt → Option Expr
  | .ret (some e) => some e
  | .block [.ret (some e)] => some e
  | _ => none

/-- The value that a chain of returns starts with: that of a lone return, or that of a choice if its
consequent is one. -/
def Script.Stmt.leading? : Stmt → Option Expr
  | .branch _ consequent _ => consequent.lone?
  | s => s.lone?

namespace Course

/-- **A run ends in a part of a chain that is passed over.** -/
inductive LosesIn (c : Course) : Stmt → Prop
  | passed {s : Stmt} : s.leading? = none → c.run s ≠ .onward → LosesIn c s
  | alternate {test : Expr} {consequent alternate : Stmt} :
    c.holds test = false → LosesIn c alternate →
      LosesIn c (.branch test consequent (some alternate))

/-- **A run ends in a statement that is passed over.** -/
inductive Loses (c : Course) : List Stmt → Prop
  | block {statements rest : List Stmt} :
    c.runAll statements ≠ .onward → Loses c (.block statements :: rest)
  | branch {test : Expr} {consequent : Stmt} {alternate : Option Stmt} {rest : List Stmt} :
    LosesIn c (.branch test consequent alternate) →
      Loses c (.branch test consequent alternate :: rest)
  | other {parts : List Part} {rest : List Stmt} :
    c.other parts ≠ .onward → Loses c (.other parts :: rest)
  | later {s : Stmt} {rest : List Stmt} : c.run s = .onward → Loses c rest → Loses c (s :: rest)

/-- A run loses the end of a body. A body that is a value has no statements. -/
def LosesReturn (c : Course) : Body → Prop
  | .value _ => False
  | .block statements => c.Loses statements

end Course

/-! ### What is read -/

namespace Lower

/-- The sole return of a block is its only expression, lowered. -/
theorem soleReturn_eq (operand : Bool) (statements : List Stmt) :
    soleReturn operand statements
      = (Stmt.block statements).lone?.map fun e => (e, expr operand e) := by
  unfold soleReturn
  split
  · rfl
  · next h =>
    -- What is no single return of a value is not lone either.
    have hnone : (Stmt.block statements).lone? = none := by
      unfold Script.Stmt.lone?
      split
      · next heq => cases heq
      · next e heq =>
        cases heq
        exact absurd rfl (h e)
      · rfl
    rw [hnone]
    rfl

/-- A guarded return is the only expression of its branch, lowered. -/
theorem guardedReturn_eq (s : Stmt) :
    guardedReturn s = s.lone?.map fun e => (e, expr true e) := by
  unfold guardedReturn
  split
  · rfl
  · exact soleReturn_eq true _
  · next hret hblock =>
    -- The two patterns of a guarded return are those of a lone one.
    have hnone : s.lone? = none := by
      unfold Script.Stmt.lone?
      split
      · next e => exact absurd rfl (hret e)
      · next e => exact absurd rfl (hblock _)
      · rfl
    rw [hnone]
    rfl

/-- A block in a chain is read for the one value that it returns. -/
theorem mem_chainReturns_block {statements : List Stmt} {r : Return}
    (h : r ∈ (chainReturns (.block statements)).1) :
    ∃ value markup, soleReturn false statements = some (value, markup) ∧
      r = ⟨none, value, markup⟩ := by
  rw [chainReturns] at h
  split at h
  · next value markup hsole => exact ⟨value, markup, hsole, List.mem_singleton.1 h⟩
  · nomatch h

/-- A choice in a chain is read for the value that its consequent returns under the test, and then
for what its alternate returns. -/
theorem mem_chainReturns_branch {test : Expr} {consequent : Stmt} {alternate : Option Stmt}
    {r : Return} (h : r ∈ (chainReturns (.branch test consequent alternate)).1) :
    ∃ value markup, guardedReturn consequent = some (value, markup) ∧
      (r = ⟨some test, value, markup⟩ ∨ r ∈ (alternateReturns alternate).1) := by
  rw [chainReturns] at h
  split at h
  · next value markup hguarded => exact ⟨value, markup, hguarded, List.mem_cons.1 h⟩
  · nomatch h

/-- What statements are read for is read of the first one or of the rest. -/
theorem mem_blockReturns_cons {s : Stmt} {rest : List Stmt} {r : Return}
    (h : r ∈ blockReturns (s :: rest)) : r ∈ (chainReturns s).1 ∨ r ∈ blockReturns rest := by
  -- The returns of the first statement come first, and those of the rest follow unless the chain
  -- always returns.
  unfold blockReturns at h
  split at h
  · nomatch h
  · nomatch h
  · next heq =>
    cases heq
    exact .inr h
  · next heq =>
    cases heq
    dsimp only at h
    split at h
    · exact .inl h
    · exact List.mem_append.1 h

end Lower

namespace Course

variable {c : Course}

/-- A statement with a lone return returns it, whatever holds. -/
theorem run_of_lone? {s : Stmt} {e : Expr} (h : s.lone? = some e) :
    c.run s = .returned (some e) := by
  unfold Script.Stmt.lone? at h
  split at h
  · cases h
    rfl
  · cases h
    rfl
  · cases h

/-- The returns of a chain, and those behind it unless every path through the chain returns. -/
def joined (chain : List Lower.Return × Bool) (later : List Lower.Return) : List Lower.Return :=
  if chain.2 then chain.1 else chain.1 ++ later

/-- The returns of a chain come before the later ones. -/
theorem joined_cons (r : Lower.Return) (chain : List Lower.Return × Bool)
    (later : List Lower.Return) :
    joined (r :: chain.1, chain.2) later = r :: joined chain later := by
  unfold joined
  split
  · rfl
  · rfl

/-- A guarded return is selected if its test holds. -/
theorem selected?_guarded (test value : Expr) (markup : Lower.Markup)
    (rest : List Lower.Return) :
    c.selected? (⟨some test, value, markup⟩ :: rest)
      = if c.holds test then some value else c.selected? rest := rfl

mutual

/-- **A chain is read as it runs**: by induction along its alternates. Where the run goes on behind
the chain, so does the search for a true test. -/
theorem selected?_chainReturns (later : List Lower.Return) : ∀ s : Stmt, ¬ c.LosesIn s →
    c.selected? (joined (Lower.chainReturns s) later)
      = (c.run s).followedBy (c.selected? later)
  | .ret none, h => by
    have hends : c.run (.ret none) ≠ .onward := by simp [run]
    exact absurd (.passed rfl hends) h
  | .ret (some e), _ => rfl
  | .block statements, h => by
    rw [Lower.chainReturns, Lower.soleReturn_eq]
    cases hlone : (Stmt.block statements).lone? with
    | some e =>
      rw [run_of_lone? hlone]
      rfl
    | none =>
      -- A block that does more is passed over, so the run does not end in it.
      have hrun : c.run (.block statements) = .onward :=
        Classical.byContradiction fun hends => h (.passed hlone hends)
      rw [hrun]
      rfl
  | .branch test consequent alternate, h => by
    rw [Lower.chainReturns, Lower.guardedReturn_eq]
    cases hlone : consequent.lone? with
    | none =>
      -- So is a chain that does not start with a lone return, whatever its alternates are.
      have hrun : c.run (.branch test consequent alternate) = .onward :=
        Classical.byContradiction fun hends => h (.passed hlone hends)
      rw [hrun]
      rfl
    | some e =>
      change c.selected? (joined (_ :: (Lower.alternateReturns alternate).1, _) later) = _
      rw [joined_cons, selected?_guarded, run]
      -- The run and the search both decide by the test; if it fails, the alternate decides.
      by_cases htest : c.holds test = true
      · rw [if_pos htest, if_pos htest, run_of_lone? hlone]
        rfl
      · rw [if_neg htest, if_neg htest]
        refine selected?_alternateReturns later alternate fun s hs hloses => h ?_
        rw [hs]
        exact .alternate (Bool.eq_false_iff.2 htest) hloses
  | .expression _, _ => rfl
  | .declaration _ _, _ => rfl
  | .function _, _ => rfl
  | .other parts, h => by
    have hrun : c.run (.other parts) = .onward :=
      Classical.byContradiction fun hends => h (.passed rfl hends)
    rw [hrun]
    rfl

/-- What stands behind `else` selects what its run returns, and else what comes later. -/
theorem selected?_alternateReturns (later : List Lower.Return) :
    ∀ alternate : Option Stmt, (∀ s, alternate = some s → ¬ c.LosesIn s) →
      c.selected? (joined (Lower.alternateReturns alternate) later)
        = (c.runOption alternate).followedBy (c.selected? later)
  | none, _ => rfl
  | some s, h => selected?_chainReturns later s (h s rfl)

end

/-- A run that goes on is followed by the run of the rest. -/
theorem followedBy_runAll (s : Stmt) (rest : List Stmt) (later : Option Expr) :
    (c.runAll (s :: rest)).followedBy later
      = (c.run s).followedBy ((c.runAll rest).followedBy later) := by
  rw [runAll]
  cases c.run s <;> rfl

/-- Of the statements of a body, a chain is read with what stands behind it. -/
theorem blockReturns_branch (test : Expr) (consequent : Stmt) (alternate : Option Stmt)
    (rest : List Stmt) :
    Lower.blockReturns (.branch test consequent alternate :: rest)
      = joined (Lower.chainReturns (.branch test consequent alternate))
          (Lower.blockReturns rest) := rfl

/-- **The statements of a body are read as they run**, statement by statement. -/
theorem selected?_blockReturns : ∀ statements : List Stmt, ¬ c.Loses statements →
    c.selected? (Lower.blockReturns statements) = (c.runAll statements).followedBy none
  | [], _ => rfl
  | .ret none :: _, _ => rfl
  | .ret (some e) :: _, _ => rfl
  | .block statements :: rest, h => by
    have hrun : c.run (.block statements) = .onward :=
      Classical.byContradiction fun hends => h (.block hends)
    rw [followedBy_runAll, hrun]
    exact selected?_blockReturns rest fun hrest => h (.later hrun hrest)
  | .branch test consequent alternate :: rest, h => by
    rw [blockReturns_branch, selected?_chainReturns _ _ fun hchain => h (.branch hchain),
      followedBy_runAll]
    -- Behind a chain that returns, neither the run nor the search looks at the rest.
    cases hrun : c.run (.branch test consequent alternate) with
    | returned value => rfl
    | thrown => rfl
    | onward => exact selected?_blockReturns rest fun hrest => h (.later hrun hrest)
  | .other parts :: rest, h => by
    have hrun : c.run (.other parts) = .onward :=
      Classical.byContradiction fun hends => h (.other hends)
    rw [followedBy_runAll, hrun]
    exact selected?_blockReturns rest fun hrest => h (.later hrun hrest)
  | .expression _ :: rest, h => selected?_blockReturns rest fun hrest => h (.later rfl hrest)
  | .declaration _ _ :: rest, h => selected?_blockReturns rest fun hrest => h (.later rfl hrest)
  | .function _ :: rest, h => selected?_blockReturns rest fun hrest => h (.later rfl hrest)

/-- The returns of a body that loses none select what the body returns. -/
theorem selected?_returns (body : Body) (h : ¬ c.LosesReturn body) :
    c.selected? (Lower.returns body) = c.returned? body := by
  cases body with
  | value e => rfl
  | block statements => exact selected?_blockReturns statements h

end Course

/-! ### Bodies that lose nothing -/

mutual

/-- The statement never returns. -/
def Script.Stmt.isQuiet : Stmt → Bool
  | .expression _ | .declaration _ _ | .function _ => true
  | .branch _ consequent alternate => consequent.isQuiet && optionIsQuiet alternate
  | .block statements => areQuiet statements
  | .ret _ | .other _ => false

def areQuiet : List Stmt → Bool
  | [] => true
  | s :: rest => s.isQuiet && areQuiet rest

def optionIsQuiet : Option Stmt → Bool
  | none => true
  | some s => s.isQuiet

end

mutual

/-- All the returns in a chain are read: its consequents do nothing but return a value, and so does
its last part unless it never returns. -/
def Script.Stmt.isChain : Stmt → Bool
  | .branch test consequent alternate =>
    (consequent.lone?.isSome && optionIsChain alternate)
      || (Stmt.branch test consequent alternate).isQuiet
  | .ret value => value.isSome
  | .block statements => (Stmt.block statements).lone?.isSome || areQuiet statements
  | .expression _ | .declaration _ _ | .function _ => true
  | .other _ => false

def optionIsChain : Option Stmt → Bool
  | none => true
  | some s => s.isChain

end

/-- All the returns among the statements of a body are read, up to the first that is not in a
chain. -/
def areRead : List Stmt → Bool
  | [] => true
  | .ret _ :: _ => true
  | .block statements :: rest => areQuiet statements && areRead rest
  | s :: rest => s.isChain && areRead rest

/-- All the returns of a body are read. -/
def Script.Body.isRead : Body → Bool
  | .value _ => true
  | .block statements => areRead statements

namespace Course

variable (c : Course)

mutual

/-- A quiet statement runs on. -/
theorem run_of_isQuiet : ∀ s : Stmt, s.isQuiet = true → c.run s = .onward
  | .expression _, _ => rfl
  | .declaration _ _, _ => rfl
  | .function _, _ => rfl
  | .block statements, h => runAll_of_areQuiet statements h
  | .branch test consequent alternate, h => by
    obtain ⟨hconsequent, halternate⟩ := Bool.and_eq_true_iff.1 h
    rw [run, run_of_isQuiet consequent hconsequent, runOption_of_isQuiet alternate halternate,
      ite_self]

theorem runAll_of_areQuiet : ∀ statements, areQuiet statements = true →
    c.runAll statements = .onward
  | [], _ => rfl
  | s :: rest, h => by
    obtain ⟨hs, hrest⟩ := Bool.and_eq_true_iff.1 h
    rw [runAll, run_of_isQuiet s hs]
    exact runAll_of_areQuiet rest hrest

theorem runOption_of_isQuiet : ∀ s, optionIsQuiet s = true → c.runOption s = .onward
  | none, _ => rfl
  | some s, h => run_of_isQuiet s h

end

/-- A quiet statement is a chain, one that starts with no value. -/
theorem isChain_of_isQuiet {s : Stmt} (h : s.isQuiet = true) : s.isChain = true := by
  cases s with
  | branch test consequent alternate => exact Bool.or_eq_true_iff.2 (.inr h)
  | block statements => exact Bool.or_eq_true_iff.2 (.inr h)
  | ret value => cases h
  | other parts => cases h
  | _ => rfl

/-- A chain that starts with no value returns none at all. -/
theorem isQuiet_of_leading? {s : Stmt} (h : s.isChain = true) (hnone : s.leading? = none) :
    s.isQuiet = true := by
  -- A value is missing where the consequent, the block or the return has none; what else is a chain
  -- never returns.
  cases s with
  | branch test consequent alternate =>
    rw [Script.Stmt.isChain, show consequent.lone? = none from hnone] at h
    exact h
  | block statements =>
    rw [Script.Stmt.isChain, show (Stmt.block statements).lone? = none from hnone] at h
    exact h
  | ret value =>
    cases value with
    | none => cases h
    | some e => cases hnone
  | other parts => cases h
  | _ => rfl

/-- A chain loses no return: it is passed over only if it is quiet, and then it runs on. -/
theorem not_losesIn_of_isChain {s : Stmt} (h : s.isChain = true) : ¬ c.LosesIn s := by
  intro hloses
  induction hloses with
  | passed hnone hends => exact hends (c.run_of_isQuiet _ (isQuiet_of_leading? h hnone))
  | alternate htest hloses ih =>
    rcases Bool.or_eq_true_iff.1 h with h | h
    · exact ih (Bool.and_eq_true_iff.1 h).2
    · exact ih (isChain_of_isQuiet (Bool.and_eq_true_iff.1 h).2)

/-- Statements that are all read lose none. -/
theorem not_loses_of_areRead {statements : List Stmt} (h : areRead statements = true) :
    ¬ c.Loses statements := by
  intro hloses
  -- On where a return is lost: statements that are read have no such place.
  induction hloses with
  | block hends => exact hends (c.runAll_of_areQuiet _ (Bool.and_eq_true_iff.1 h).1)
  | branch hloses => exact c.not_losesIn_of_isChain (Bool.and_eq_true_iff.1 h).1 hloses
  | other hrun => cases h
  | @later s rest hrun hloses ih =>
    cases s with
    | ret value => cases hrun
    | _ => exact ih (Bool.and_eq_true_iff.1 h).2

/-- **A body of lone returns loses nothing**, whatever the truth of its tests. -/
theorem not_losesReturn_of_isRead {body : Body} (h : body.isRead = true) :
    ¬ c.LosesReturn body := by
  cases body with
  | value e => exact id
  | block statements => exact c.not_loses_of_areRead h

end Course

/-- What a function returns are the returns of its body. -/
theorem Lower.eq_of_returned? {f : Function} {rs : List Return} (h : returned? f = some rs) :
    rs = returns f.body := by
  unfold returned? at h
  dsimp only at h
  split at h
  · exact (Option.some.inj h).symm
  · cases h

/-- **No early return is lost.** If a function is read for the values it returns, then in every run
that does not end in a statement that is passed over, the first value whose test is true is what the
function returns. -/
theorem selected?_returned {f : Function} {rs : List Lower.Return}
    (hf : Lower.returned? f = some rs) (c : Course) (h : ¬ c.LosesReturn f.body) :
    c.selected? rs = c.returned? f.body := by
  rw [Lower.eq_of_returned? hf]
  exact c.selected?_returns f.body h

/-- A chain with a null return and a block that never returns, in a run in which no test is true. -/
theorem selected?_returned_chain :
    let source :=
      "function Page() { if (a) return <p/>; else if (b) { return null; } { let d; } return <q/>; }"
    let c : Course := ⟨fun _ => false, fun _ => .onward⟩
    ∃ m k rs, Script.Module.parse? source = some m ∧ k ∈ (Lower.harvest none m).candidates ∧
      Lower.returned? k.function = some rs ∧ rs.length = 3 ∧ ¬ c.LosesReturn k.function.body ∧
      (c.selected? rs).map Expr.text = some "<q/>" ∧
      c.selected? rs = c.returned? k.function.body := by
  intro source c
  have hrun : (Script.Module.parse? source).any (fun m =>
      (Lower.harvest none m).candidates.any fun k => (Lower.returned? k.function).any fun rs =>
        decide (k.function.body.isRead = true ∧ rs.length = 3 ∧
          (c.selected? rs).map Expr.text = some "<q/>")) = true := by
    decide +kernel
  obtain ⟨m, hm, hrun⟩ := (Option.any_eq_true _ _).1 hrun
  obtain ⟨k, hk, hrun⟩ := List.any_eq_true.1 hrun
  obtain ⟨rs, hrs, hrun⟩ := (Option.any_eq_true _ _).1 hrun
  obtain ⟨hread, hlength, hselected⟩ := of_decide_eq_true hrun
  -- Every branch is read, so no return is lost.
  have hloses := c.not_losesReturn_of_isRead hread
  exact ⟨m, k, rs, hm, hk, hrs, hlength, hloses, hselected, selected?_returned hrs c hloses⟩

/-- A return behind a declaration is lost, and the value behind it is taken for it. -/
theorem early_return_behind_declaration :
    let source := "function Page() { if (a) { let b; return <p/>; } return <i/>; }"
    let c : Course := ⟨fun _ => true, fun _ => .onward⟩
    ∃ m k rs, Script.Module.parse? source = some m ∧ k ∈ (Lower.harvest none m).candidates ∧
      Lower.returned? k.function = some rs ∧
      (c.selected? rs).map Expr.text = some "<i/>" ∧
      (c.returned? k.function.body).map Expr.text = some "<p/>" ∧
      c.selected? rs ≠ c.returned? k.function.body := by
  intro source c
  have hrun : (Script.Module.parse? source).any (fun m =>
      (Lower.harvest none m).candidates.any fun k => (Lower.returned? k.function).any fun rs =>
        decide ((c.selected? rs).map Expr.text = some "<i/>" ∧
          (c.returned? k.function.body).map Expr.text = some "<p/>")) = true := by
    decide +kernel
  obtain ⟨m, hm, hrun⟩ := (Option.any_eq_true _ _).1 hrun
  obtain ⟨k, hk, hrun⟩ := List.any_eq_true.1 hrun
  obtain ⟨rs, hrs, hrun⟩ := (Option.any_eq_true _ _).1 hrun
  obtain ⟨hselected, hreturned⟩ := of_decide_eq_true hrun
  refine ⟨m, k, rs, hm, hk, hrs, hselected, hreturned, fun heq => ?_⟩
  -- The selected return and the returned value have different texts.
  rw [heq, hreturned] at hselected
  exact absurd hselected (by decide)

end Stencil
