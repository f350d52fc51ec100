import Stencil.Proofs.Text.Replacing
import Stencil.Proofs.Text.Spelling

/-!
# Entities read back

Three replacements one after another put the entities into a text. Each of them sees the ampersands
that the ones before have put in, so the order is part of the spelling: the ampersands of the text
itself are replaced first, and then no ampersand is replaced again (`encodeEntities_eq_replaced`).
What comes of it is a spelling character by character, and reading the entities from left to right
takes it back (`entities_read_back`), whatever the text looks like.
-/

namespace Stencil.Text

/-- The entities of a text come of three replacements, of the ampersands first. -/
theorem encodeEntities_eq_replaced (s : String) :
    (encodeEntities s).toList =
      replaced ['<'] ['&', 'l', 't', ';']
        (replaced ['"'] ['&', 'q', 'u', 'o', 't', ';']
          (replaced ['&'] ['&', 'a', 'm', 'p', ';'] s.toList)) := by
  rw [replaced_singleton, replaced_singleton, replaced_singleton, List.flatMap_assoc,
    List.flatMap_assoc, encodeEntities, String.toList_ofList]
  apply congrArg (fun f => s.toList.flatMap f)
  funext c
  fun_cases entityChar c with
  -- What the first replacement puts in holds nothing for the other two.
  | case1 hamp => simp [hamp]
  | case2 hamp hquote => simp [hquote]
  | case3 hamp hquote hbracket => simp [hbracket]
  | case4 hamp hquote hbracket => simp [hamp, hquote, hbracket]

/-- **Entities read back.** The spelling of a text, which three replacements make of it, has neither
a double quote nor an opening bracket, and reading its entities from left to right gives the text
again, also if the text has entities of its own. So no two texts are spelled alike. -/
theorem entities_read_back :
    (∀ s : String,
      (encodeEntities s).toList =
          replaced ['<'] ['&', 'l', 't', ';']
            (replaced ['"'] ['&', 'q', 'u', 'o', 't', ';']
              (replaced ['&'] ['&', 'a', 'm', 'p', ';'] s.toList)) ∧
        '"' ∉ (encodeEntities s).toList ∧ '<' ∉ (encodeEntities s).toList ∧
        decodeEntities (encodeEntities s).toList = s.toList) ∧
      Function.Injective encodeEntities := by
  constructor
  · intro s
    have hclear := notMem_encodeEntities s
    exact ⟨encodeEntities_eq_replaced s, hclear.1, hclear.2, decodeEntities_encodeEntities s⟩
  · intro s t hspelled
    apply String.toList_injective
    -- Decoding is a left inverse, so encoding is injective.
    calc s.toList
        = decodeEntities (encodeEntities s).toList := (decodeEntities_encodeEntities s).symm
      _ = decodeEntities (encodeEntities t).toList := by rw [hspelled]
      _ = t.toList := decodeEntities_encodeEntities t

end Stencil.Text
