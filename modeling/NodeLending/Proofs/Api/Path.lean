import NodeLending.Api.Route
import NodeLending.Proofs.Text.Cutting
import NodeLending.Text.Encoding

/-!
# The paths of endpoints

A namespace is written with characters that mean nothing in a path. So the path of an endpoint is cut
where it was put together, and the namespace that is read from it is the one that it was made of.

## Main results

* `Namespace.mem_alphabet`: the characters of a namespace.
* `Namespace.splitOn_path`: the parts of the path of an endpoint.
* `Namespace.route_path`, `Namespace.namespace?_text`: what the path of an endpoint is for.
-/

namespace NodeLending

namespace Text

/-! ### Hexadecimal digits -/

theorem digitChar_mem {n : Nat} (h : n < 16) : Nat.digitChar n ∈ "0123456789abcdef".toList := by
  have hall : ∀ k : Fin 16, Nat.digitChar k ∈ "0123456789abcdef".toList := by decide
  exact hall ⟨n, h⟩

theorem mem_hexDigits {bytes : List UInt8} {c : Char} (h : c ∈ hexDigits bytes) :
    c ∈ "0123456789abcdef".toList := by
  obtain ⟨b, -, hc⟩ := List.mem_flatMap.mp h
  have hlt := b.toNat_lt
  simp only [hexByte, List.mem_cons, List.not_mem_nil, or_false] at hc
  rcases hc with rfl | rfl
  · exact digitChar_mem (by omega)
  · exact digitChar_mem (by omega)

end Text

namespace Namespace

/-- The characters that namespaces are written with. -/
def alphabet : String := lead ++ "0123456789abcdef"

theorem mem_alphabet {location : String} {c : Char}
    (h : c ∈ (ofRepository location).text.toList) : c ∈ alphabet.toList := by
  rw [ofRepository, Text.hex, String.toList_append, String.toList_ofList, List.mem_append] at h
  rw [alphabet, String.toList_append, List.mem_append]
  exact h.imp_right Text.mem_hexDigits

/-- What is so for the characters of the alphabet is so for those of every namespace. -/
@[elab_as_elim]
theorem of_mem {location : String} {motive : Char → Prop} [DecidablePred motive] {c : Char}
    (h : c ∈ (ofRepository location).text.toList)
    (hall : alphabet.toList.all (fun c => decide (motive c)) = true) : motive c :=
  of_decide_eq_true (List.all_eq_true.mp hall c (mem_alphabet h))

/-- A namespace may stand in a path as it is. -/
theorem plain_of_mem {location : String} {c : Char}
    (h : c ∈ (ofRepository location).text.toList) :
    c ≠ '/' ∧ c ≠ '%' ∧ Api.Route.endsPath c = false ∧ c.toNat < 0x80 :=
  of_mem h (by decide)

/-- The segment of a namespace is read as the namespace. -/
theorem namespace?_text (location : String) :
    Api.Route.namespace? (ofRepository location).text = some (ofRepository location).text := by
  rw [Api.Route.namespace?, Url.percentDecode_of_forall fun c hc => (plain_of_mem hc).2.1]
  exact Text.ofUtf8?_utf8 _

theorem plain_of_mem_segment {e : Endpoint} {c : Char} (h : c ∈ e.segment.toList) :
    c ≠ '/' ∧ Api.Route.endsPath c = false := by
  have hall : e.segment.toList.all (fun c => decide
      (c ≠ '/' ∧ Api.Route.endsPath c = false)) = true := by cases e <;> decide
  exact of_decide_eq_true (List.all_eq_true.mp hall c h)

/-- The path of an endpoint is cut where it was put together. -/
theorem splitOn_path (location : String) (e : Endpoint) :
    Text.splitOn '/' ((ofRepository location).path e) =
      ["", (ofRepository location).text, e.segment] := by
  have hjoin : (ofRepository location).path e = Text.join (String.singleton '/')
      ["", (ofRepository location).text, e.segment] := by
    simp [path, Text.join, String.intercalate_cons_cons, String.intercalate_singleton,
      String.append_assoc]
  rw [hjoin]
  refine Text.splitOn_join (List.cons_ne_nil _ _) fun s hs hslash => ?_
  simp only [List.mem_cons, List.not_mem_nil, or_false] at hs
  rcases hs with rfl | rfl | rfl
  · cases hslash
  · exact (plain_of_mem hslash).1 rfl
  · exact (plain_of_mem_segment hslash).1 rfl

/-- The path of an endpoint is for that endpoint below its namespace. -/
theorem route_path (location : String) (e : Endpoint) :
    Api.Route.of? ((ofRepository location).path e) =
      some (.endpoint (ofRepository location).text e) := by
  have hplain : ∀ c ∈ ((ofRepository location).path e).toList, Api.Route.endsPath c = false := by
    intro c hc
    simp only [path, String.toList_append, List.mem_append] at hc
    rcases hc with ((hc | hc) | hc) | hc
    · rw [List.mem_singleton.mp hc]
      rfl
    · exact (plain_of_mem hc).2.2.1
    · rw [List.mem_singleton.mp hc]
      rfl
    · exact (plain_of_mem_segment hc).2
  have hpath : Api.Route.path ((ofRepository location).path e) = (ofRepository location).path e := by
    rw [Api.Route.path, Text.cutAt_of_forall hplain, String.ofList_toList]
  rw [Api.Route.of?, hpath, splitOn_path]
  cases e <;> rfl

example : Api.Route.of? "//discover" = some (.endpoint "" .discover) := by decide

end Namespace

end NodeLending
