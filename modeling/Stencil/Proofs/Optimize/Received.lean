import Stencil.Proofs.Constant.Evaluates
import Stencil.Proofs.Lower.Passing
import Stencil.Proofs.Optimize.Normal

/-!
# What a prop receives for a constant

The attributes of a call are settled like those of an element, and what is left of them is bound to
the props of the component. An attribute that is settled says less than its value does: a number is
kept as its text, and a value that no element would show takes its attribute away.

* `spellsString_quoted` — a quoted text is a string literal with that value;
* `Value.received?` — what is left of a value that is settled as an attribute, if anything;
* `simplify?_of_evaluate?` — a constant attribute becomes what is left of its value, or it is
  dropped;
* `determines_script` — the script of a binding to what is left comes to it in every world.

The main theorem is `received_of_evaluate?`. A number reaches the component as a text
(`received_number_as_text`).
-/

namespace Stencil

open Script

/-! ### Quoted texts -/

namespace Script

/-- A digit that was written is read as its value. -/
theorem hexValue?_hexDigit {n : Nat} (h : n < 16) : hexValue? (Text.hexDigit n) = some n := by
  revert n
  decide

/-- An escape that was written for a control character is read as that character. -/
theorem takeEscape_hexadecimal {c : Char} (h : c.toNat < 32) (s : List Char) :
    takeEscape true ('u' :: '0' :: '0' :: Text.hexDigit (c.toNat / 16) ::
      Text.hexDigit (c.toNat % 16) :: s) = some ([c], s) := by
  -- The two digits after the zeros spell the code point.
  have hhigh : hexValue? (Text.hexDigit (c.toNat / 16)) = some (c.toNat / 16) :=
    hexValue?_hexDigit (by omega)
  have hlow : hexValue? (Text.hexDigit (c.toNat % 16)) = some (c.toNat % 16) :=
    hexValue?_hexDigit (by omega)
  have hzero : hexValue? '0' = some 0 := by decide
  have hvalue : 16 * (c.toNat / 16) + c.toNat % 16 = c.toNat := Nat.div_add_mod c.toNat 16
  have hchar : charOf c.toNat = c := by
    have hvalid : c.toNat.isValidChar := c.valid
    rw [charOf, if_pos hvalid, Char.ofNat_toNat]
  simp [takeEscape, takeUnicodeChar, takeUnicode, takeHex, hzero, hhigh, hlow, hvalue, hchar]
  omega

/-- An escape is one step of the reader, whatever its length. -/
theorem takeString_escape (bound : Nat) (spelled : List Char) {c : Char} {s : List Char}
    (h : takeEscape true (spelled ++ s) = some ([c], s)) :
    takeString '"' (bound + 1) ('\\' :: spelled ++ s) =
      (takeString '"' bound s).map fun (tail, rest) => (c :: tail, rest) := by
  rw [List.cons_append, takeString, if_neg (by decide), if_pos rfl, h]
  change (takeString '"' bound s).bind _ = _
  cases takeString '"' bound s <;> rfl

/-- The spelling of a character inside a quoted literal reads as that character. -/
theorem takeString_quotedChar (bound : Nat) (c : Char) (s : List Char) :
    takeString '"' (bound + 1) (Text.quotedChar c ++ s) =
      (takeString '"' bound s).map fun (tail, rest) => (c :: tail, rest) := by
  have hshort : ∀ {n : Nat}, c.toNat = n → c = Char.ofNat n := by
    rintro n rfl
    exact (Char.ofNat_toNat c).symm
  -- One case for each short escape, one for the other control characters, and one for what stands
  -- for itself.
  fun_cases Text.quotedChar c with
  | case1 hc =>
    subst hc
    exact takeString_escape bound ['"'] rfl
  | case2 _ hc =>
    subst hc
    exact takeString_escape bound ['\\'] rfl
  | case3 _ _ hc => exact takeString_escape bound ['n'] (hc ▸ rfl)
  | case4 _ _ _ hc => exact takeString_escape bound ['r'] (hc ▸ rfl)
  | case5 _ _ _ _ hc => exact takeString_escape bound ['t'] (hc ▸ rfl)
  | case6 _ _ _ _ _ hc => exact takeString_escape bound ['b'] (hshort hc ▸ rfl)
  | case7 _ _ _ _ _ _ hc => exact takeString_escape bound ['f'] (hshort hc ▸ rfl)
  | case8 _ _ _ _ _ _ _ hc => exact takeString_escape bound _ (takeEscape_hexadecimal hc s)
  | case9 hquote hbackslash hfeed hreturn =>
    simp [takeString, hquote, hbackslash, hfeed, hreturn]

/-- Every character is written as something. -/
theorem quotedChar_ne_nil (c : Char) : Text.quotedChar c ≠ [] := by
  fun_cases Text.quotedChar c <;> exact List.cons_ne_nil _ _

/-- A quoted text is read back up to its closing quotation mark. -/
theorem takeString_quoted {bound : Nat} {cs : List Char} (rest : List Char)
    (h : (cs.flatMap Text.quotedChar).length < bound) :
    takeString '"' bound (cs.flatMap Text.quotedChar ++ '"' :: rest) = some (cs, rest) := by
  induction cs generalizing bound with
  | nil =>
    obtain ⟨bound, rfl⟩ : ∃ k, bound = k + 1 := ⟨bound - 1, by simp at h; omega⟩
    rfl
  | cons c cs ih =>
    -- Each character takes at least one of those that are left, so the bound lasts.
    have hpos := List.length_pos_iff.2 (quotedChar_ne_nil c)
    rw [List.flatMap_cons, List.length_append] at h
    obtain ⟨bound, rfl⟩ : ∃ k, bound = k + 1 := ⟨bound - 1, by omega⟩
    rw [List.flatMap_cons, List.append_assoc, takeString_quotedChar, ih (by omega)]
    rfl

/-- **A quoted text is a string literal with that value.** -/
theorem spellsString_quoted (s : String) : SpellsString (Text.quoted s) s := by
  have hquote : ∀ rest, tokenAt ('"' :: rest) = (takeString '"' (rest.length + 1) rest).map
      fun (value, rest) => (.string (String.ofList value), rest) := fun rest => rfl
  -- The escapes of the quoted text read back to it, up to the closing quote.
  have hread : takeString '"' ((s.toList.flatMap Text.quotedChar).length + 2)
      (s.toList.flatMap Text.quotedChar ++ ['"']) = some (s.toList, []) :=
    takeString_quoted [] (Nat.lt_succ_of_lt (Nat.lt_succ_self _))
  unfold SpellsString
  rw [Text.quoted, String.toList_ofList, List.cons_append, hquote, List.length_append,
    List.length_singleton, hread]
  simp only [Option.map_some, String.ofList_toList]

end Script

/-! ### What is left of a value -/

/-- What is left of a value that is settled as an attribute: the text of a number, and nothing of a
value that no element would show. -/
def Value.received? : Value → Option Value
  | .undefined | .null | .bool false => none
  | .bool true => some (.bool true)
  | .number x => some (.string (Value.text (.number x)))
  | .string s => some (.string s)

/-- The attribute value that stands for what is left of a value. -/
def Value.settled? (v : Value) : Option AttributeValue :=
  match v with
  | .undefined | .null | .bool false => none
  | .bool true => some (.flag true)
  | .number x => some (.literal (Value.text (.number x)))
  | .string s => some (.literal s)

/-- The word `true` is read as the value. -/
theorem parse?_true : Expr.parse? "true" = some (.mk "true" (.boolean true)) := by
  unfold Expr.parse?
  rfl

/-- So it is known to be true. -/
theorem evaluate?_true (scope : Scope) : evaluate? "true" scope = some (.bool true) := by
  unfold evaluate?
  rw [parse?_true]
  rfl

/-- The word `undefined` is a name. -/
theorem isName_undefined : IsName "undefined" :=
  ⟨⟨by decide +kernel, List.all_eq_true.1 (by decide +kernel)⟩, by decide⟩

/-- It is known as the value of that name. -/
theorem evaluate?_undefined (scope : Scope) : evaluate? "undefined" scope = some .undefined := by
  unfold evaluate?
  rw [parse?_name isName_undefined]
  rfl

/-- Code with a known value settles at the first look. -/
theorem settleOnce_of_evaluate? {scope : Scope} {code : Code} {v : Value}
    (h : evaluate? (Text.trim code.text) scope = some v) :
    settleOnce scope code = .done v.settled? := by
  unfold settleOnce
  dsimp only
  -- `true` and `undefined` are recognized by their text before anything is evaluated.
  split
  · next htrue =>
    rw [htrue, evaluate?_true] at h
    cases h
    rfl
  · split
    · next hundefined =>
      rw [hundefined, evaluate?_undefined] at h
      cases h
      rfl
    · rw [h]
      cases v with
      | bool b => cases b <;> rfl
      | _ => rfl

/-- So an attribute with such code keeps the value, or is dropped with it. -/
theorem simplify?_of_evaluate? {scope : Scope} {a : Attribute} {code : Code} {v : Value}
    (ha : a.value = .dynamic code) (h : evaluate? (Text.trim code.text) scope = some v) :
    a.simplify? scope = v.settled?.map fun value => { a with value := value } := by
  unfold Attribute.simplify?
  rw [ha]
  dsimp only
  rw [settleFrom?_eq_settle?, Code.settle?, settleOnce_of_evaluate? h]

/-- An attribute that is left keeps its name. -/
theorem name_simplify? {scope : Scope} {a b : Attribute} (h : a.simplify? scope = some b) :
    b.name = a.name := by
  unfold Attribute.simplify? at h
  split at h
  · obtain ⟨value, -, rfl⟩ := Option.map_eq_some_iff.1 h
    rfl
  · cases h
    rfl

/-! ### Bindings -/

/-- The script of the binding comes to the value, and to nothing else, in every world. -/
def Binding.Denotes (b : Binding) (v : Value) : Prop :=
  ∃ e, Expr.parse? b.script = some e ∧ ∀ w : World, w.Determines e v

/-- A binding denotes one value at most, since there is a world to ask. -/
theorem Binding.Denotes.unique {b : Binding} {u v : Value} (hu : b.Denotes u) (hv : b.Denotes v) :
    u = v := by
  obtain ⟨e, he, hu⟩ := hu
  obtain ⟨e', he', hv⟩ := hv
  cases he.symm.trans he'
  -- In this world every literal has a value, so the code comes to one.
  let w : World :=
    { value := fun _ => .primitive .undefined
      result := fun _ _ d => d = .other 0 true
      exists_literal := fun _ _ => ⟨_, rfl⟩
      truthy_literal := fun _ _ _ h => h ▸ rfl }
  exact Datum.primitive.inj ((hv w).unique (hu w).evaluates)

/-- A literal binding denotes its text. -/
theorem denotes_literal (name s : String) : Binding.Denotes ⟨name, some (.literal s)⟩ (.string s) :=
  ⟨_, parse?_stringLiteral (spellsString_quoted s), fun _ => determines_string s⟩

/-- A flag denotes the truth value. -/
theorem denotes_true (name : String) : Binding.Denotes ⟨name, some (.flag true)⟩ (.bool true) :=
  ⟨_, parse?_true, fun _ => determines_boolean true⟩

/-- A binding without a value denotes the undefined one. -/
theorem denotes_undefined (name : String) : Binding.Denotes ⟨name, none⟩ .undefined :=
  ⟨_, parse?_name isName_undefined, fun _ => determines_globalName rfl⟩

/-- A value either leaves nothing, or what is left of it is what a binding to it denotes. -/
theorem settled?_cases (v : Value) :
    (v.settled? = none ∧ v.received? = none) ∨ ∃ value r, v.settled? = some value ∧
      v.received? = some r ∧ ∀ name, Binding.Denotes ⟨name, some value⟩ r := by
  cases v with
  | undefined | null => exact .inl ⟨rfl, rfl⟩
  | bool b =>
    cases b with
    | false => exact .inl ⟨rfl, rfl⟩
    | true => exact .inr ⟨_, _, rfl, rfl, denotes_true⟩
  | number x => exact .inr ⟨_, _, rfl, rfl, fun name => denotes_literal name _⟩
  | string s => exact .inr ⟨_, _, rfl, rfl, fun name => denotes_literal name s⟩

/-- **What a prop receives for a constant.** Take a call of a component, a declared prop other than
the children, and the first attribute of its name that counts, with code of a known value. The call
binds the prop once. What it is bound to denotes what is left of the value: the text of a number,
and otherwise the value itself. If nothing is left of it, the attributes behind it decide, and
without any the prop is undefined. -/
theorem received_of_evaluate? (s : Signature) (p : PropDef) (scope : Scope)
    (before after : List Attribute) (a : Attribute) (code : Code) (v : Value)
    (hp : p ∈ s.props) (hchildren : p.name ≠ "children") (hname : a.name = p.name)
    (hcode : a.value = .dynamic code)
    (hbefore : ∀ x ∈ before, x.name = p.name → x.simplify? scope = none)
    (hv : evaluate? (Text.trim code.text) scope = some v) :
    ∃ b ∈ s.bind ((before ++ a :: after).filterMap (·.simplify? scope)),
      (∀ b' ∈ s.bind ((before ++ a :: after).filterMap (·.simplify? scope)),
        b'.name = p.name ↔ b' = b) ∧
      (∀ r, v.received? = some r → b.Denotes r) ∧
      (v.received? = none → b ∈ s.bind (after.filterMap (·.simplify? scope)) ∧
        ((∀ x ∈ after, x.name ≠ p.name) → b.Denotes .undefined)) := by
  -- The attributes before it are dropped, so the search begins with the attribute itself.
  have hskipped : ∀ x ∈ before, ∀ y, x.simplify? scope = some y → y.name ≠ p.name := by
    intro x hx y hy hyname
    rw [hbefore x hx ((name_simplify? hy).symm.trans hyname)] at hy
    cases hy
  have hfind := find?_filterMap_append hskipped (a :: after)
  have hsettled := simplify?_of_evaluate? hcode hv
  refine ⟨⟨p.name, _⟩, (Signature.mem_bind_iff hp hchildren).2 rfl, ?_, ?_⟩
  · rintro ⟨name, value⟩ hmem
    constructor
    · rintro rfl
      rw [(Signature.mem_bind_iff hp hchildren).1 hmem]
    · intro h
      rw [h]
  rw [hfind]
  rcases settled?_cases v with ⟨hnone, hleft⟩ | ⟨value, r, hvalue, hleft, hdenotes⟩
  · -- The attribute is dropped as well.
    rw [hnone] at hsettled
    rw [List.filterMap_cons_none hsettled, hleft]
    refine ⟨nofun, fun _ => ⟨(Signature.mem_bind_iff hp hchildren).2 rfl, fun hafter => ?_⟩⟩
    have hothers : ∀ x ∈ after, ∀ y, x.simplify? scope = some y → y.name ≠ p.name := by
      intro x hx y hy hyname
      exact hafter x hx ((name_simplify? hy).symm.trans hyname)
    have hmissing := find?_filterMap_append hothers []
    rw [List.append_nil] at hmissing
    rw [hmissing]
    exact denotes_undefined p.name
  · rw [hvalue] at hsettled
    rw [List.filterMap_cons_some hsettled, List.find?_cons_of_pos (by simpa using hname), hleft]
    refine ⟨fun r' hr' => ?_, nofun⟩
    cases hr'
    exact hdenotes p.name

/-- A name bound to a sum that is a text, behind an attribute of the same name that is dropped. -/
theorem received_of_evaluate?_sum :
    let scope : Scope := Dict.empty.insert "k" "'a' + 1"
    let s : Signature := { name := "C", props := [⟨"n", false⟩] }
    let dropped : Attribute := { name := "n", value := .dynamic ⟨"undefined"⟩ }
    let a : Attribute := { name := "n", value := .dynamic ⟨"k"⟩ }
    dropped.simplify? scope = none ∧ evaluate? (Text.trim "k") scope = some (.string "a1") ∧
      ∃ b ∈ s.bind ([dropped, a].filterMap (·.simplify? scope)), b.Denotes (.string "a1") := by
  intro scope s dropped a
  have hundefined : evaluate? (Text.trim "undefined") scope = some .undefined := by
    rw [show Text.trim "undefined" = "undefined" by decide +kernel]
    exact evaluate?_undefined scope
  have hdropped : dropped.simplify? scope = none := simplify?_of_evaluate? rfl hundefined
  have hsum : evaluate? (Text.trim "k") scope = some (.string "a1") :=
    evaluate?_eq_string (by decide +kernel) (by decide +kernel)
  have hbefore : ∀ x ∈ [dropped], x.name = "n" → x.simplify? scope = none := by
    intro x hx _
    rw [List.mem_singleton.1 hx]
    exact hdropped
  obtain ⟨b, hb, -, hleft, -⟩ := received_of_evaluate? s ⟨"n", false⟩ scope [dropped] [] a ⟨"k"⟩ _
    List.mem_cons_self (by decide) rfl rfl hbefore hsum
  exact ⟨hdropped, hsum, b, hb, hleft _ rfl⟩

/-- **Values that do not reach the component.** A number comes as its text, and both null and false
come as undefined. -/
theorem received_number_as_text :
    let s : Signature := { name := "C", props := [⟨"n", false⟩] }
    let bound (code : String) : List Binding :=
      let a : Attribute := { name := "n", value := .dynamic ⟨code⟩ }
      s.bind ([a].filterMap (·.simplify? Dict.empty))
    (evaluate? "5" Dict.empty = some (.number 5) ∧ bound "5" = [⟨"n", some (.literal "5")⟩] ∧
      ¬Binding.Denotes ⟨"n", some (.literal "5")⟩ (.number 5)) ∧
    (evaluate? "null" Dict.empty = some .null ∧ bound "null" = [⟨"n", none⟩] ∧
      ¬Binding.Denotes ⟨"n", none⟩ .null) ∧
    (evaluate? "false" Dict.empty = some (.bool false) ∧ bound "false" = [⟨"n", none⟩] ∧
      ¬Binding.Denotes ⟨"n", none⟩ (.bool false)) := by
  intro s bound
  refine ⟨⟨?_, by decide +kernel, fun h => ?_⟩, ⟨?_, by decide +kernel, fun h => ?_⟩,
    ⟨?_, by decide +kernel, fun h => ?_⟩⟩
  · unfold evaluate? Expr.parse?
    rfl
  · cases h.unique (denotes_literal "n" "5")
  · unfold evaluate? Expr.parse?
    rfl
  · cases h.unique (denotes_undefined "n")
  · unfold evaluate? Expr.parse?
    rfl
  · cases h.unique (denotes_undefined "n")

end Stencil
