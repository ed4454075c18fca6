/-
Scalars as literals, and back.

The literal of a scalar is one more node in the store, without links; nothing else is touched, whatever
the tree looks like (`Tree.materialize_ok`).  Its attributes tell the scalar: the sort of the literal keeps
strings apart from numbers that they look like, and the detail keeps the two sorts of numbers apart
(`Node.decode?_of_isLiteral`).  Only numbers that are not finite have no literal.
-/
import VariantFold.Proofs.FloatText
import VariantFold.Proofs.Resolve

namespace VariantFold

namespace Tree

/-! ### One more node -/

/-- The tree with one more node in the store. -/
def push (t : Tree) (n : Node) : Tree := { t with nodes := (t.nodes.alloc n).2 }

lemma size_push (t : Tree) (n : Node) : (t.push n).size = t.size + 1 := Store.size_alloc t.nodes n

lemma node_push (t : Tree) (n : Node) (x : NodeId) :
    (t.push n).node x = if x = t.size then n else t.node x := by
  rw [node, push, Store.get?_alloc, size]
  split <;> rfl

lemma set_push (t : Tree) (n : Node) (name : String) (value : Scalar) :
    (t.push n).set t.size name value = t.push (n.set name value) := by
  have hitems : (t.nodes.items.push n).modify t.nodes.items.size (fun n => n.set name value) =
      t.nodes.items.push (n.set name value) := by
    refine Array.ext_getElem? fun i => ?_
    rw [Array.getElem?_modify, Array.getElem?_push, Array.getElem?_push]
    by_cases hi : i = t.nodes.items.size
    · simp [hi]
    · simp [hi, Ne.symm hi]
  exact congrArg (fun items => (⟨⟨items⟩, t.root⟩ : Tree)) hitems

lemma constant_run (t : Tree) (type : ConstantType) (text : String) :
    (Build.constant type text).run t =
      (t.size, t.push { kind := .constant, attributes := type.attributes text }) := by
  change (t.size, ((t.push { kind := .constant }).set t.size Attr.constantType _).set t.size
    Attr.value _) = _
  rw [set_push, set_push]
  rfl

/-- A detail is set after the rest. -/
lemma detailed_run (t : Tree) (type : ConstantType) (text detail : String) :
    (Build.constant type text >>= fun id => Build.set id Attr.detail (.string detail) >>= fun _ =>
      pure id).run t = (t.size, t.push
        ⟨.constant, (type.attributes text).insert Attr.detail (.string detail), [], none⟩) := by
  change (((Build.constant type text).run t).1, ((Build.constant type text).run t).2.set
    ((Build.constant type text).run t).1 Attr.detail (.string detail)) = _
  rw [constant_run, set_push]
  rfl

lemma literal_run (t : Tree) (value : Scalar) : (Build.literal value).run t =
    (t.size, t.push { kind := .constant, attributes := value.literalAttributes }) := by
  cases value with
  | null => exact constant_run t .null "null"
  | bool b => exact constant_run t .boolean _
  | int n => exact detailed_run t .number _ intDetail
  | float x => exact detailed_run t .number _ floatDetail
  | string s => exact detailed_run t .string s stringDetail

/-- The literal of a scalar that has one is one more node; all others stay as they are. -/
lemma materialize_ok (t : Tree) {value : Scalar} (h : value.isLiteral = true) (line : Option Int64)
    (location : Location) : t.materialize value line location = .ok (t.size, t.push
      { kind := .constant, attributes := value.literalAttributes.withLine line }) := by
  have hrun : t.materialize value line location = .ok (((Build.literal value).run t).1,
      ((Build.atLine? ((Build.literal value).run t).1 line).run
        ((Build.literal value).run t).2).2) := if_pos h
  rw [hrun, literal_run, atLine?_run]
  cases line with
  | none => rfl
  | some line =>
    dsimp only
    rw [set_push]
    rfl

/-- Nothing leads to the node that is added. -/
lemma isAttached_push {t : Tree} {n : Node} (hn : n.parent = none) (hroot : t.root < t.size) :
    (t.push n).isAttached t.size = false := by
  have hparent : (t.push n).parent? t.size = none := by
    rw [parent?, node_push, if_pos rfl, hn]
  rw [isAttached, ancestorsOrSelf, ancestors_of_parent_none hparent]
  exact decide_eq_false fun heq => absurd (Option.some_injective _ heq) (Nat.ne_of_lt hroot).symm

end Tree

/-- Only numbers that are not finite have no literal. -/
lemma Scalar.isLiteral_eq_false_iff {value : Scalar} :
    value.isLiteral = false ↔ ∃ x, value = .float x ∧ (x.isNaN = true ∨ x.isInf = true) := by
  constructor
  · intro h
    cases value with
    | float x => exact ⟨x, rfl, (isFinite_eq_false_iff x).1 h⟩
    | null | bool _ | int _ | string _ => exact absurd h (by simp [isLiteral])
  · rintro ⟨x, rfl, hx⟩
    exact (isFinite_eq_false_iff x).2 hx

/-- The text of a finite number as a literal is read as the number. -/
lemma readFloat?_literalFloat {x : Float} (hx : x.isFinite = true) :
    readFloat? (Scalar.literalFloat x) = some x := by
  obtain ⟨hnan, hinf⟩ := not_or.1 (mt (isFinite_eq_false_iff x).2 (by simp [hx]))
  rw [Scalar.literalFloat, if_neg hnan, if_neg hinf]
  exact readFloat?_float Scalar.literalLayout hx

/-- The literal of a scalar denotes the scalar. -/
lemma Node.decode?_of_isLiteral {n : Node} {value : Scalar} {line : Option Int64}
    (hkind : n.kind = .constant) (has : n.attributes = value.literalAttributes.withLine line)
    (hliteral : value.isLiteral = true) : n.decode? = some value := by
  cases value with
  | float x =>
    obtain ⟨hplain, hdetail⟩ := IsLiteral.of_detail
      (n := { n with attributes := (Scalar.float x).literalAttributes }) hkind rfl
    have h := hplain.withLine has
    rw [decode?, h.constantType?_eq, h.text_eq, (str?_withLine has (by decide)).trans hdetail]
    rw [Option.bind_eq_bind, Option.bind_some]
    rw [decodeNumber?, if_neg (by decide), if_pos rfl, readFloat?_literalFloat hliteral, Option.map_some]
  | null | bool _ | int _ | string _ => exact decode?_literal_withLine hkind has rfl

namespace Tree

lemma exists_materialize_error (t : Tree) {value : Scalar} (h : value.isLiteral = false)
    (line : Option Int64) (location : Location) :
    ∃ e, t.materialize value line location = .error e :=
  ⟨_, if_neg (Bool.eq_false_iff.1 h)⟩

/-- Only numbers that are not finite have no literal, and a run that meets one ends with the tree and the
log that it had.  The literal of any other scalar is exactly one more node, a constant without links, that
denotes the scalar; all other nodes stay as they are. -/
theorem materialize_effect (t : Tree) (value : Scalar) (line : Option Int64) (location : Location) :
    ((∃ e, t.materialize value line location = .error e) ↔
      ∃ x, value = .float x ∧ (x.isNaN = true ∨ x.isInf = true)) ∧
    ((∃ x, value = .float x ∧ (x.isNaN = true ∨ x.isInf = true)) →
      ∀ (variants : Variants) (site : CallSite) (log : Log) (key : String) (args : List NodeId),
        t.keyArguments site.call 1 = .ok (key, args) → variants.lookup key = some value →
        ∃ e, Step.getValue variants site ⟨t, log⟩ = .error (.variant e) ⟨t, log⟩) ∧
    ((¬∃ x, value = .float x ∧ (x.isNaN = true ∨ x.isInf = true)) →
      ∃ u, t.materialize value line location = .ok (t.size, u) ∧
        u.size = t.size + 1 ∧ u.root = t.root ∧ (∀ y, y ≠ t.size → u.node y = t.node y) ∧
        u.kind t.size = .constant ∧ u.parent? t.size = none ∧ u.children t.size = [] ∧
        (t.root < t.size → u.isAttached t.size = false) ∧
        (u.node t.size).decode? = some value) := by
  rw [← Scalar.isLiteral_eq_false_iff, Bool.not_eq_false]
  refine ⟨⟨?_, fun h => t.exists_materialize_error h line location⟩, ?_, ?_⟩
  · rintro ⟨e, he⟩
    refine Bool.eq_false_iff.2 fun h => ?_
    exact absurd (he.symm.trans (t.materialize_ok h line location)) (by simp)
  · intro h variants site log key args hkey hvalue
    obtain ⟨e, he⟩ :=
      t.exists_materialize_error h (t.node site.call).line? (log.location t site.call)
    exact ⟨e, Step.getValue_unsupported (w := ⟨t, log⟩) hkey hvalue he⟩
  · intro h
    have hnode := t.node_push
      { kind := .constant, attributes := value.literalAttributes.withLine line } t.size
    rw [if_pos rfl] at hnode
    refine ⟨_, t.materialize_ok h line location, t.size_push _, rfl, fun y hy => ?_, ?_, ?_, ?_,
      isAttached_push rfl, ?_⟩
    · rw [node_push, if_neg hy]
    · rw [kind, hnode]
    · rw [parent?, hnode]
    · rw [children, hnode]
    · rw [hnode]
      exact Node.decode?_of_isLiteral rfl rfl h

/-- A tenth, which no double is, comes back as the double that was written. -/
theorem materialize_effect_tenth :
    ∃ u, (single .file).materialize (.float 0.1) none {} = .ok (1, u) ∧
      (u.node 1).decode? = some (.float 0.1) := by
  have hfinite : ¬∃ x, Scalar.float 0.1 = .float x ∧ (x.isNaN = true ∨ x.isInf = true) :=
    fun hx => absurd (Scalar.isLiteral_eq_false_iff.2 hx) (by decide +kernel)
  obtain ⟨-, -, hok⟩ := materialize_effect (single .file) (.float 0.1) none {}
  obtain ⟨u, hu, -, -, -, -, -, -, -, hdecode⟩ := hok hfinite
  exact ⟨u, hu, hdecode⟩

end Tree

end VariantFold
