import Musgos.Lingo.RoundTrip

/-!
# Self-delimiting encodings

No type writes its own size; a container finds the next child at the place where
the size that the last one reported says it ends. The place of a value inside an
encoding is given here by what is written before it, and the decoder, started
there, reports exactly the bytes of that value, whatever surrounds them.
-/
namespace Musgos.Lingo.LValue

open Foundation

/-- The values an object writes, in their order on the wire: a property list writes each
property in front of its value. -/
def written : LValue → List LValue
  | .propList ps vs => (ps.zip vs).flatMap fun e => [e.1, e.2]
  | v => v.children

/-- The bytes in front of the first of them: the type code, and the count where there is one. -/
def bodyStart : LValue → ℕ
  | .list _ | .propList _ _ => 6
  | _ => 2

/-- The values at every depth of a tree, with the offset of each in the tree's encoding. -/
inductive Inside (v : LValue) : ℕ → LValue → Prop
  | root : Inside v 0 v
  | child {offset : ℕ} {u c : LValue} {before after : List LValue} {first : List UInt8} :
      Inside v offset u → u.written = before ++ c :: after →
      concatBytes (before.map getBytes) = some first →
      Inside v (offset + u.bodyStart + first.length) c

theorem mem_children_of_mem_written {v c : LValue} (h : c ∈ v.written) : c ∈ v.children := by
  cases v
  case propList ps vs =>
    simp only [written, List.mem_flatMap, List.mem_cons, List.not_mem_nil, or_false] at h
    obtain ⟨⟨p, x⟩, hpair, rfl | rfl⟩ := h
    · exact List.mem_append_left vs (List.of_mem_zip hpair).1
    · exact List.mem_append_right ps (List.of_mem_zip hpair).2
  all_goals exact h

theorem pairBytes_eq_concatBytes {ps vs : List LValue} (hlength : ps.length = vs.length)
    (hps : ∀ p ∈ ps, p.getBytes.isSome) (hvs : ∀ v ∈ vs, v.getBytes.isSome) :
    pairBytes (ps.map getBytes) (vs.map getBytes) =
      concatBytes (((ps.zip vs).flatMap fun e => [e.1, e.2]).map getBytes) := by
  induction ps generalizing vs with
  | nil => simp [pairBytes, pairUp, concatBytes]
  | cons p ps ih =>
    obtain ⟨v, vs, rfl⟩ := List.exists_cons_of_length_pos (l := vs) (by simp [← hlength])
    rw [List.forall_mem_cons] at hps hvs
    obtain ⟨x, hx⟩ := Option.isSome_iff_exists.mp hps.1
    obtain ⟨y, hy⟩ := Option.isSome_iff_exists.mp hvs.1
    have hrest := ih (by simpa using hlength) hps.2 hvs.2
    simp only [List.map_cons, hx, hy, pairBytes_cons, hrest, List.zip_cons_cons,
      List.flatMap_cons, List.cons_append, List.nil_append, concatBytes]
    cases concatBytes (((ps.zip vs).flatMap fun e => [e.1, e.2]).map getBytes) <;> simp

theorem Encodable.wellFormed {v : LValue} (h : v.Encodable) : v.WellFormed := by
  apply Everywhere.mono _ h
  intro u hu
  cases u <;> first | exact hu.1 | exact hu | trivial

/-- An object that writes others writes its start and then these. -/
theorem getBytes_eq_written {u : LValue} (hu : u.Encodable) (hne : u.written ≠ []) :
    ∃ start body, u.getBytes = some (start ++ body) ∧ start.length = u.bodyStart ∧
      concatBytes (u.written.map getBytes) = some body := by
  have hsome : ∀ c ∈ u.children, c.getBytes.isSome := fun c hc =>
    getBytes_isSome (Encodable.wellFormed (hu.child hc))
  obtain ⟨body, hbody⟩ := Option.isSome_iff_exists.mp
    (concatBytes_isSome fun c hc => hsome c (mem_children_of_mem_written hc))
  cases u
  case list vs =>
    have hvs : concatBytes (vs.map getBytes) = some body := hbody
    refine ⟨header vtList ++ beBytes 4 vs.length, body, ?_, rfl, hbody⟩
    simp [getBytes, getBytesEach_eq_map, hvs]
  case point x y =>
    have hxy : concatBytes ([x, y].map getBytes) = some body := hbody
    exact ⟨header vtPoint, body, by rw [getBytes_point, hxy]; rfl, rfl, hbody⟩
  case rect l t r b =>
    have hsides : concatBytes ([l, t, r, b].map getBytes) = some body := hbody
    exact ⟨header vtRect, body, by rw [getBytes_rect, hsides]; rfl, rfl, hbody⟩
  case propList ps vs =>
    have hpairs := pairBytes_eq_concatBytes hu.here.1
      (fun c hc => hsome c (List.mem_append_left vs hc))
      (fun c hc => hsome c (List.mem_append_right ps hc))
    have hbody' : pairBytes (ps.map getBytes) (vs.map getBytes) = some body := hpairs.trans hbody
    refine ⟨header vtPropList ++ beBytes 4 ps.length, body, ?_, rfl, hbody⟩
    simp [getBytes, getBytesEach_eq_map, hbody']
  all_goals exact absurd rfl hne

/-- A written value stands behind the start and the values written before it. -/
theorem standsAt_written {u c : LValue} {before after : List LValue} {bytes first : List UInt8}
    (hu : u.Encodable) (hbytes : u.getBytes = some bytes) (hc : u.written = before ++ c :: after)
    (hfirst : concatBytes (before.map getBytes) = some first) :
    ∃ enc, c.getBytes = some enc ∧ StandsAt bytes (u.bodyStart + first.length) enc := by
  obtain ⟨start, body, hu', hstart, hbody⟩ := getBytes_eq_written hu (by simp [hc])
  obtain rfl := Option.some.inj (hbytes.symm.trans hu')
  rw [hc, List.map_append, concatBytes_append, hfirst] at hbody
  simp only [List.map_cons, concatBytes, Option.bind_eq_bind, Option.bind_some,
    Option.bind_eq_some_iff, Option.pure_def, Option.some.injEq] at hbody
  obtain ⟨-, ⟨enc, henc, rest, -, rfl⟩, rfl⟩ := hbody
  refine ⟨enc, henc, start ++ first, rest, by simp, ?_⟩
  rw [List.length_append, hstart]

theorem Inside.encodable {v c : LValue} {offset : ℕ} (h : Inside v offset c) (hv : v.Encodable) :
    c.Encodable := by
  induction h with
  | root => exact hv
  | child _ hc _ ih => exact ih.child (mem_children_of_mem_written (by simp [hc]))

/-- Wherever a value is in a tree, its encoding stands at its offset. -/
theorem Inside.standsAt {v c : LValue} {offset : ℕ} (h : Inside v offset c) (hv : v.Encodable)
    {bytes : List UInt8} (hbytes : v.getBytes = some bytes) :
    ∃ enc, c.getBytes = some enc ∧ StandsAt bytes offset enc := by
  induction h with
  | root => exact ⟨bytes, hbytes, standsAt_whole bytes⟩
  | child hin hc hfirst ih =>
    obtain ⟨outer, houter, hat⟩ := ih
    obtain ⟨enc, henc, hinner⟩ := standsAt_written (hin.encodable hv) houter hc hfirst
    refine ⟨enc, henc, ?_⟩
    rw [Nat.add_assoc]
    exact hat.trans hinner

/-- The decoder, started at `offset`, makes an object and reports the bytes `enc`, less the
type code; a container that extracts the object again is told the same size. -/
structure Delimited (b : List UInt8) (offset : ℕ) (c : LValue) (enc : List UInt8) : Prop where
  bytes : slice b offset enc.length = some enc
  code : uintAt 2 b offset = some c.getType
  extracted : ∃ w, extractFromBytes b (blank c.getType) (offset + 2) = some (w, enc.length - 2) ∧
    (offset + 2 < 2 ^ 63 → fromRawBytes b offset = some w) ∧
    ∃ w', extractFromBytes b w (offset + 2) = some (w', enc.length - 2)

theorem ReadsBack.delimited {v w : LValue} (h : ReadsBack v w) {enc b : List UInt8} {offset : ℕ}
    (henc : v.getBytes = some enc) (hat : StandsAt b offset enc) : Delimited b offset v enc := by
  obtain ⟨enc', henc', -, hread⟩ := h.child
  obtain rfl := Option.some.inj (henc.symm.trans henc')
  obtain ⟨body, hbody, hextract⟩ := h
  obtain rfl := Option.some.inj (henc.symm.trans hbody)
  obtain ⟨hmade, hagain⟩ := hread b offset hat
  have hcode : uintAt 2 b offset = some v.getType := hat.left.uintAt_eq v.getType_lt
  have hfirst : extractFromBytes b (blank v.getType) (offset + 2) = some (w, body.length) := by
    have hright := hat.right
    simp only [header, length_beBytes] at hright
    exact hextract b _ hright
  have hsize : (header v.getType ++ body).length - 2 = body.length := by simp [header]
  rw [readChild, childBy, hmade, Option.bind_eq_bind, Option.bind_some] at hagain
  constructor
  case bytes => exact hat.slice_eq
  case code => exact hcode
  case extracted =>
    refine ⟨w, by rw [hsize]; exact hfirst, ?_, w.again, hagain⟩
    intro hoffset
    rw [fromRawBytes, if_pos hoffset, hmade]

/-- Every value at every depth of an encodable tree is read from its own bytes and reports
exactly their number, with any bytes before and after the tree. -/
theorem self_delimiting (v : LValue) (hv : v.Encodable) :
    ∃ bytes, v.getBytes = some bytes ∧ ∀ offset c, Inside v offset c →
      ∃ enc, c.getBytes = some enc ∧
        ∀ p s, Delimited (p ++ bytes ++ s) (p.length + offset) c enc := by
  obtain ⟨bytes, hbytes⟩ := Option.isSome_iff_exists.mp (getBytes_isSome (Encodable.wellFormed hv))
  refine ⟨bytes, hbytes, ?_⟩
  intro offset c hin
  obtain ⟨enc, henc, hat⟩ := hin.standsAt hv hbytes
  refine ⟨enc, henc, ?_⟩
  intro p s
  have hreads := readsBack_decoded c (hin.encodable hv)
  have htree : StandsAt (p ++ bytes ++ s) p.length bytes := ⟨p, s, by simp, rfl⟩
  exact hreads.delimited henc (htree.trans hat)

/-- A property list in a list, between bytes that have nothing to do with it. -/
theorem self_delimiting_nested :
    let v : LValue := .list [.propList [.symbol (lit "a")] [.string (lit "odd")], .integer 1]
    v.Encodable ∧ ∃ bytes, v.getBytes = some bytes ∧ ∀ offset c, Inside v offset c →
      ∃ enc, c.getBytes = some enc ∧
        ∀ p s, Delimited (p ++ bytes ++ s) (p.length + offset) c enc :=
  ⟨by decide +kernel, self_delimiting _ (by decide +kernel)⟩

end Musgos.Lingo.LValue
