/-
# A written document is read back

The reader is a machine over tokens with a stack of open containers.  Running
it over the tokens of a value, whatever is open, delivers that value
(`foldlM_tokensOf`): the induction is on the value, and what follows the value
is left to run.  With the lexer's part this gives `parse_print`: a value whose
texts have content is read back from its written form.
-/
import Relayout.Json.Reader
import Relayout.Proofs.Json.Tokens

namespace Relayout.Json

/-- The tokens of a value do not start with the end of an array, so a first
item is read like any value. -/
theorem foldlM_firstItem (v : Json) (outer : List Frame) (ts : List Token) :
    (tokensOf v ++ ts).foldlM Reader.step (.firstItem outer) =
      (tokensOf v ++ ts).foldlM Reader.step (.value (.array [] :: outer)) := by
  match v with
  | .null | .bool _ | .number _ | .text _ => rfl
  | .array [] | .array (_ :: _) | .object [] | .object (_ :: _) => rfl

mutual

/-- The tokens of a value deliver it to the innermost open container. -/
theorem foldlM_tokensOf : ∀ (v : Json) (outer : List Frame) (ts : List Token),
    (tokensOf v ++ ts).foldlM Reader.step (.value outer) =
      ts.foldlM Reader.step (Reader.deliver v outer)
  | .null, _, _ => rfl
  | .bool _, _, _ => rfl
  | .number _, _, _ => rfl
  | .text _, _, _ => rfl
  | .array [], _, _ => rfl
  | .object [], _, _ => rfl
  | .array (v :: vs), outer, ts => by
      have hfirst := foldlM_tokensOf v (.array [] :: outer) (itemTokens vs ++ .closeArray :: ts)
      have hrest := foldlM_itemTokens vs outer [v] ts
      simp only [tokensOf, List.cons_append, List.append_assoc, List.nil_append]
      exact (foldlM_firstItem v outer _).trans (hfirst.trans hrest)
  | .object ((key, v) :: members), outer, ts => by
      have hfirst := foldlM_tokensOf v (.object [] key :: outer)
        (memberTokens members ++ .closeObject :: ts)
      have hrest := foldlM_memberTokens members outer [(key, v)] ts
      simp only [tokensOf, List.cons_append, List.append_assoc, List.nil_append]
      exact hfirst.trans hrest

/-- The items behind some that were read, up to the end of their array. -/
theorem foldlM_itemTokens : ∀ (vs : List Json) (outer : List Frame) (items : List Json)
    (ts : List Token),
    (itemTokens vs ++ .closeArray :: ts).foldlM Reader.step (.afterItem outer items) =
      ts.foldlM Reader.step (Reader.deliver (.array (items.reverse ++ vs)) outer)
  | [], outer, items, ts => by
      rw [List.append_nil]
      rfl
  | v :: vs, outer, items, ts => by
      have hitem := foldlM_tokensOf v (.array items :: outer) (itemTokens vs ++ .closeArray :: ts)
      have hrest := foldlM_itemTokens vs outer (v :: items) ts
      rw [List.reverse_cons, List.append_assoc] at hrest
      simp only [itemTokens, List.cons_append, List.append_assoc]
      exact hitem.trans hrest

/-- The members behind some that were read, up to the end of their object. -/
theorem foldlM_memberTokens : ∀ (members : List (Option String × Json)) (outer : List Frame)
    (seen : List (Option String × Json)) (ts : List Token),
    (memberTokens members ++ .closeObject :: ts).foldlM Reader.step (.afterMember outer seen) =
      ts.foldlM Reader.step (Reader.deliver (.object (seen.reverse ++ members)) outer)
  | [], outer, seen, ts => by
      rw [List.append_nil]
      rfl
  | (key, v) :: members, outer, seen, ts => by
      have hmember := foldlM_tokensOf v (.object seen key :: outer)
        (memberTokens members ++ .closeObject :: ts)
      have hrest := foldlM_memberTokens members outer ((key, v) :: seen) ts
      rw [List.reverse_cons, List.append_assoc] at hrest
      simp only [memberTokens, List.cons_append, List.append_assoc]
      exact hmember.trans hrest

end

/-- A value whose texts have content is read back from its written form. -/
theorem Plain.parse_print {v : Json} (h : v.Plain) : parse (print v) = some v := by
  have hread := foldlM_tokensOf v [] []
  rw [List.append_nil] at hread
  simp only [parse, print, String.toList_ofList, h.tokens_form, Option.bind_eq_bind,
    Option.bind_some, hread]
  rfl

end Relayout.Json
