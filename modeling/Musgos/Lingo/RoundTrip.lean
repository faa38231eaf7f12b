import Musgos.Lingo.WireTotal

/-!
# The wire round trip

What decoding makes of an encoded tree. Every container extracts each child
twice, and the second extraction of a property list appends its pairs again, so
the tree that comes back is `decoded v`: below the root every property list has
its pairs twice. The tree survives the trip exactly when no property list below
the root holds a pair.
-/
namespace Musgos.Lingo.LValue

open Foundation

/-- The part of the encodable domain that a single object has to meet: present,
not a media value, every property paired, and every length within its field. -/
def WireOk : LValue → Prop
  | .nil => False
  | .media _ => False
  | .symbol s => s.length < 2 ^ 32
  | .string s => s.length < 2 ^ 32
  | .picture d => d.length < 2 ^ 32
  | .list vs => vs.length < 2 ^ 32
  | .propList ps vs => ps.length = vs.length ∧ ps.length < 2 ^ 32
  | _ => True

instance : DecidablePred WireOk
  | .nil | .media _ => .isFalse id
  | .symbol s => inferInstanceAs (Decidable (s.length < 2 ^ 32))
  | .string s => inferInstanceAs (Decidable (s.length < 2 ^ 32))
  | .picture d => inferInstanceAs (Decidable (d.length < 2 ^ 32))
  | .list vs => inferInstanceAs (Decidable (vs.length < 2 ^ 32))
  | .propList ps vs => inferInstanceAs (Decidable (ps.length = vs.length ∧ ps.length < 2 ^ 32))
  | .void | .integer _ | .float _ | .point _ _ | .rect _ _ _ _ | .color _ _ _ | .date _
  | .vector3d _ _ _ | .transform3d _ => .isTrue trivial

/-- The trees the wire format can carry. -/
abbrev Encodable (v : LValue) : Prop := Everywhere WireOk v

/-- An object on its own that a second extraction leaves alone. -/
def NoPairs : LValue → Prop
  | .propList ps vs => ps = [] ∧ vs = []
  | _ => True

mutual

/-- The tree that comes back from the wire. -/
def decoded : LValue → LValue
  | .list vs => .list (decodedEach vs)
  | .point h v => .point (decoded h).again (decoded v).again
  | .rect l t r b =>
    .rect (decoded l).again (decoded t).again (decoded r).again (decoded b).again
  | .propList ps vs => .propList (decodedEach ps) (decodedEach vs)
  | v => v

def decodedEach : List LValue → List LValue
  | [] => []
  | v :: vs => (decoded v).again :: decodedEach vs

end

theorem decodedEach_eq_map (vs : List LValue) :
    decodedEach vs = vs.map fun v => (decoded v).again := by
  induction vs with
  | nil => simp [decodedEach]
  | cons v vs ih => simp [decodedEach, ih]

section Encoded

/-- The encoding of `v` starts with its own type code, and extracting from its
body gives `w` and exactly the body's length. -/
def ReadsBack (v w : LValue) : Prop :=
  ∃ body, getBytes v = some (header v.getType ++ body) ∧
    ∀ b offset, StandsAt b offset body →
      extractFromBytes b (blank v.getType) offset = some (w, body.length)

theorem getType_lt (v : LValue) : v.getType < 256 ^ 2 := by
  cases v <;> simp only [getType] <;> decide

theorem ReadsBack.child {v w : LValue} (h : ReadsBack v w) :
    ∃ enc, getBytes v = some enc ∧ 2 ≤ enc.length ∧
      ∀ b offset, StandsAt b offset enc →
        fromRawBytesBy (extractFromBytes b) b offset = some w ∧
          readChild b offset = some (w.again, enc.length - 2) := by
  obtain ⟨body, hbody, hread⟩ := h
  refine ⟨_, hbody, by simp [header], fun b offset hat => ?_⟩
  have hcode := hat.left.uintAt_eq v.getType_lt
  have hlen := hat.left.le_length
  have hext := hread b _ hat.right
  simp only [header, length_beBytes] at hlen hext
  have hchild := readChild_eq hcode hlen hext
  simpa [header] using hchild

theorem listLoop_encoded {vs : List LValue} (h : ∀ v ∈ vs, ReadsBack v v.decoded) :
    ∃ body, concatBytes (vs.map getBytes) = some body ∧ 2 * vs.length ≤ body.length ∧
      ∀ b current, StandsAt b current body →
        listLoop (extractFromBytes b) b vs.length current =
          some (vs.map fun v => v.decoded.again, current + body.length) := by
  induction vs with
  | nil => exact ⟨[], rfl, by simp, fun b current _ => rfl⟩
  | cons v vs ih =>
    obtain ⟨enc, henc, hlen, hread⟩ := (h v (by simp)).child
    obtain ⟨body, hbody, hblen, hloop⟩ := ih fun c hc => h c (by simp [hc])
    refine ⟨enc ++ body, by simp [concatBytes, henc, hbody], by simp; omega, ?_⟩
    intro b current hat
    have hchild := (hread b current hat.left).2
    have hnext : current + (2 + (enc.length - 2)) = current + enc.length := by omega
    have hrest := hloop b (current + enc.length) hat.right
    unfold readChild at hchild
    simp [listLoop, hchild, hnext, hrest]
    omega

theorem pairLoop_encoded {ps vs : List LValue} (hlen : ps.length = vs.length)
    (hps : ∀ p ∈ ps, ReadsBack p p.decoded) (hvs : ∀ v ∈ vs, ReadsBack v v.decoded) :
    ∃ body, pairBytes (ps.map getBytes) (vs.map getBytes) = some body ∧
      ∀ b offset chunk, StandsAt b (offset + chunk) body →
        ∃ pairs, pairLoop (extractFromBytes b) b offset ps.length chunk =
            some (pairs, chunk + body.length) ∧
          pairs.map Prod.fst = ps.map (fun p => p.decoded.again) ∧
          pairs.map Prod.snd = vs.map (fun v => v.decoded.again) := by
  induction ps generalizing vs with
  | nil =>
    obtain rfl : vs = [] := List.length_eq_zero_iff.mp hlen.symm
    exact ⟨[], rfl, fun b offset chunk _ => ⟨[], rfl, rfl, rfl⟩⟩
  | cons p ps ih =>
    obtain _ | ⟨v, vs⟩ := vs
    · simp at hlen
    obtain ⟨pEnc, hpEnc, hpLen, hpRead⟩ := (hps p (by simp)).child
    obtain ⟨vEnc, hvEnc, hvLen, hvRead⟩ := (hvs v (by simp)).child
    obtain ⟨body, hbody, hloop⟩ := ih (by simpa using hlen) (fun c hc => hps c (by simp [hc]))
      fun c hc => hvs c (by simp [hc])
    refine ⟨pEnc ++ vEnc ++ body, by simp [pairBytes_cons, hpEnc, hvEnc, hbody], ?_⟩
    intro b offset chunk hat
    have hpAt := hat.left.left
    have hvAt := hat.left.right
    have hbAt := hat.right
    have hpBound := hpAt.le_length
    have hvBound := hvAt.le_length
    have hp := (hpRead b _ hpAt).2
    have hv := (hvRead b _ hvAt).2
    simp only [List.length_append] at hbAt
    rw [show offset + chunk + pEnc.length = offset + (chunk + pEnc.length) by omega] at hv hvBound
    rw [show offset + chunk + (pEnc.length + vEnc.length)
      = offset + (chunk + pEnc.length + vEnc.length) by omega] at hbAt
    obtain ⟨pairs, hpairs, hfst, hsnd⟩ := hloop b offset _ hbAt
    unfold readChild at hp hv
    have hpNext : chunk + 2 + (pEnc.length - 2) = chunk + pEnc.length := by omega
    have hvNext : chunk + pEnc.length + 2 + (vEnc.length - 2) =
        chunk + pEnc.length + vEnc.length := by
      omega
    refine ⟨(p.decoded.again, v.decoded.again) :: pairs, ?_, by simp [hfst], by simp [hsnd]⟩
    have hp2 : ¬ b.length < offset + chunk + 2 := by omega
    have hv2 : ¬ b.length < offset + (chunk + pEnc.length) + 2 := by omega
    simp [pairLoop, hp, hv, hpNext, hvNext, hp2, hv2, hpairs]
    omega

theorem fieldLoop_encoded {vs : List LValue} (h : ∀ v ∈ vs, ReadsBack v v.decoded)
    (olds : List LValue) (hlen : olds.length = vs.length) :
    ∃ body, concatBytes (vs.map getBytes) = some body ∧
      ∀ b offset consumed, StandsAt b (offset + consumed) body →
        fieldLoop (extractFromBytes b) b offset consumed olds =
          some (vs.map fun v => v.decoded.again, some (consumed + body.length)) := by
  induction vs generalizing olds with
  | nil =>
    obtain rfl : olds = [] := List.length_eq_zero_iff.mp hlen
    exact ⟨[], rfl, fun b offset consumed _ => rfl⟩
  | cons v vs ih =>
    obtain _ | ⟨old, olds⟩ := olds
    · simp at hlen
    obtain ⟨enc, henc, hEncLen, hread⟩ := (h v (by simp)).child
    obtain ⟨body, hbody, hloop⟩ := ih (fun c hc => h c (by simp [hc])) olds (by simpa using hlen)
    refine ⟨enc ++ body, by simp [concatBytes, henc, hbody], ?_⟩
    intro b offset consumed hat
    have hbound := hat.left.le_length
    have hchild := (hread b _ hat.left).2
    have hnext : consumed + (2 + (enc.length - 2)) = consumed + enc.length := by omega
    have hrest := hloop b offset (consumed + enc.length)
      (by simpa [Nat.add_assoc] using hat.right)
    have hlong : ¬ b.length < offset + consumed + 2 := by omega
    unfold readChild at hchild
    simp [fieldLoop, hlong, hchild, hnext, hrest]
    omega

theorem countedBytes_encoded {s rest : List UInt8} (hs : s.length < 2 ^ 32) {b : List UInt8}
    {offset : ℕ} (hat : StandsAt b offset (beBytes 4 s.length ++ (s ++ rest))) :
    countedBytes b offset = some (some s) := by
  have hn := hat.left.uintAt_eq (by simpa using hs)
  have hlen4 := hat.left.le_length
  have hdata := hat.right.left.slice_eq
  have hlen := hat.right.left.le_length
  simp only [length_beBytes] at hlen4 hdata hlen
  simp [countedBytes, hn, hdata, Nat.not_lt.mpr hlen4, Nat.not_lt.mpr hlen]

theorem text_encoded {s : GoString} (hs : s.length < 2 ^ 32) {b : List UInt8} {offset : ℕ}
    (hat : StandsAt b offset (textBytes s)) :
    countedBytes b offset = some (some s) ∧
      (textBytes s).length = 4 + s.length + s.length % 2 := by
  rw [textBytes, List.append_assoc] at hat
  exact ⟨countedBytes_encoded hs hat, by simp [textBytes, Nat.add_assoc]⟩

theorem cells_encoded {cells : List UInt32} {b : List UInt8} (offset start : ℕ)
    (hat : StandsAt b (offset + start * 4) (cells.flatMap fun f => beBytes 4 f.toNat)) :
    (List.range' start cells.length).mapM (fun i => uintAt 4 b (offset + i * 4)) =
      some (cells.map UInt32.toNat) := by
  induction cells generalizing start with
  | nil => rfl
  | cons f cells ih =>
    rw [List.flatMap_cons] at hat
    have hf := hat.left.uintAt_eq (by simpa using f.toNat_lt)
    have hrest := ih (start + 1) (by simpa [Nat.add_mul, Nat.add_assoc] using hat.right)
    simp [List.range'_succ, List.mapM_cons, hf, hrest]

theorem length_flatMap_cells (cells : List UInt32) :
    (cells.flatMap fun f => beBytes 4 f.toNat).length = 4 * cells.length := by
  simp [List.length_flatMap, Nat.mul_comm]

theorem readsBack_integer (n : Int32) : ReadsBack (.integer n) (LValue.integer n).decoded := by
  refine ⟨_, rfl, ?_⟩
  intro b offset hat
  have hn := hat.uintAt_eq (by simpa using n.toUInt32.toNat_lt)
  have hlen := hat.le_length
  rw [length_beBytes] at hlen
  have hback : (UInt32.ofNat n.toUInt32.toNat).toInt32 = n := by
    rw [UInt32.ofNat_toNat, Int32.toInt32_toUInt32]
  rw [extractFromBytes_eq]
  simp only [getType, blank, extractBy, hn, Nat.not_lt.mpr hlen, decoded, if_false, hback,
    Option.bind_eq_bind, Option.bind_some, Option.pure_def, length_beBytes]

theorem readsBack_symbol {s : GoString} (hs : s.length < 2 ^ 32) :
    ReadsBack (.symbol s) (LValue.symbol s).decoded := by
  refine ⟨_, rfl, ?_⟩
  intro b offset hat
  obtain ⟨hread, hlen⟩ := text_encoded hs hat
  simp [extractFromBytes_eq, getType, blank, extractBy, hread, hlen, decoded]

theorem readsBack_string {s : GoString} (hs : s.length < 2 ^ 32) :
    ReadsBack (.string s) (LValue.string s).decoded := by
  refine ⟨_, rfl, ?_⟩
  intro b offset hat
  obtain ⟨hread, hlen⟩ := text_encoded hs hat
  simp [extractFromBytes_eq, getType, blank, extractBy, hread, hlen, decoded]

theorem readsBack_picture {d : List UInt8} (hd : d.length < 2 ^ 32) :
    ReadsBack (.picture d) (LValue.picture d).decoded := by
  refine ⟨_, rfl, ?_⟩
  intro b offset hat
  have hat' : StandsAt b offset (beBytes 4 d.length ++ (d ++ [])) := by simpa using hat
  have hread := countedBytes_encoded hd hat'
  simp [extractFromBytes_eq, getType, blank, extractBy, hread, decoded]

theorem readsBack_float (bits : UInt64) : ReadsBack (.float bits) (LValue.float bits).decoded := by
  refine ⟨_, rfl, ?_⟩
  intro b offset hat
  have hn := hat.uintAt_eq (by simpa using bits.toNat_lt)
  have hlen := hat.le_length
  rw [length_beBytes] at hlen
  simp [extractFromBytes_eq, getType, blank, extractBy, hn, Nat.not_lt.mpr hlen, decoded]

theorem readsBack_list {vs : List LValue} (h : ∀ c ∈ vs, ReadsBack c c.decoded)
    (hvs : vs.length < 2 ^ 32) : ReadsBack (.list vs) (LValue.list vs).decoded := by
  obtain ⟨body, hbody, hcount, hloop⟩ := listLoop_encoded h
  refine ⟨beBytes 4 vs.length ++ body, by simp [getBytes, getBytesEach_eq_map, hbody, getType], ?_⟩
  intro b offset hat
  have hn := hat.left.uintAt_eq (by simpa using hvs)
  have hlen := hat.right.le_length
  have hrest := hloop b _ hat.right
  rw [length_beBytes] at hlen hrest
  have hmax : ¬ (b.length - offset - 4) / 2 < vs.length := by omega
  have h4 : ¬ b.length < offset + 4 := by omega
  simp [extractFromBytes_eq, getType, blank, extractBy, hn, h4, hmax, hrest, decoded,
    decodedEach_eq_map]
  omega

theorem readsBack_point {x y : LValue} (h : ∀ c ∈ [x, y], ReadsBack c c.decoded) :
    ReadsBack (.point x y) (LValue.point x y).decoded := by
  obtain ⟨body, hbody, hloop⟩ := fieldLoop_encoded h [.nil, .nil] rfl
  refine ⟨body, by rw [getBytes_point, hbody]; rfl, ?_⟩
  intro b offset hat
  have hfields := hloop b offset 0 hat
  simp [extractFromBytes_eq, getType, blank, extractBy, hfields, decoded]

theorem readsBack_rect {l t r bt : LValue} (h : ∀ c ∈ [l, t, r, bt], ReadsBack c c.decoded) :
    ReadsBack (.rect l t r bt) (LValue.rect l t r bt).decoded := by
  obtain ⟨body, hbody, hloop⟩ := fieldLoop_encoded h [.nil, .nil, .nil, .nil] rfl
  refine ⟨body, by rw [getBytes_rect, hbody]; rfl, ?_⟩
  intro b offset hat
  have hfields := hloop b offset 0 hat
  simp [extractFromBytes_eq, getType, blank, extractBy, hfields, decoded]

theorem readsBack_propList {ps vs : List LValue} (hps : ∀ c ∈ ps, ReadsBack c c.decoded)
    (hvs : ∀ c ∈ vs, ReadsBack c c.decoded) (hpaired : ps.length = vs.length)
    (hcount : ps.length < 2 ^ 32) :
    ReadsBack (.propList ps vs) (LValue.propList ps vs).decoded := by
  obtain ⟨body, hbody, hloop⟩ := pairLoop_encoded hpaired hps hvs
  refine ⟨beBytes 4 ps.length ++ body, by simp [getBytes, getBytesEach_eq_map, hbody, getType], ?_⟩
  intro b offset hat
  have hn := hat.left.uintAt_eq (by simpa using hcount)
  have hlen := hat.left.le_length
  have hright := hat.right
  rw [length_beBytes] at hlen hright
  obtain ⟨pairs, hpairs, hfst, hsnd⟩ := hloop b offset 4 hright
  simp [extractFromBytes_eq, getType, blank, extractBy, hn, Nat.not_lt.mpr hlen, hpairs, hfst,
    hsnd, decoded, decodedEach_eq_map]

theorem readsBack_color (r g bl : UInt8) :
    ReadsBack (.color r g bl) (LValue.color r g bl).decoded := by
  refine ⟨_, rfl, ?_⟩
  intro b offset hat
  have hlen := hat.le_length
  have h0 := hat.getElem?_eq (i := 0) (by simp)
  have h1 := hat.getElem?_eq (i := 1) (by simp)
  have h2 := hat.getElem?_eq (i := 2) (by simp)
  simp at h0 h1 h2 hlen
  simp [extractFromBytes_eq, getType, blank, extractBy, h0, h1, h2, Nat.not_lt.mpr hlen, decoded]

theorem readsBack_date (d : Vector UInt8 8) : ReadsBack (.date d) (LValue.date d).decoded := by
  refine ⟨_, rfl, ?_⟩
  intro b offset hat
  have hlen := hat.le_length
  have hraw := hat.slice_eq
  simp only [Vector.length_toList] at hlen hraw
  simp [extractFromBytes_eq, getType, blank, extractBy, hraw, Nat.not_lt.mpr hlen, decoded]

theorem readsBack_vector3d (x y z : UInt32) :
    ReadsBack (.vector3d x y z) (LValue.vector3d x y z).decoded := by
  refine ⟨_, rfl, ?_⟩
  intro b offset hat
  have hlen := hat.le_length
  have hx := hat.left.uintAt_eq (by simpa using x.toNat_lt)
  have hy := hat.right.left.uintAt_eq (by simpa using y.toNat_lt)
  have hz := hat.right.right.uintAt_eq (by simpa using z.toNat_lt)
  simp at hy hz hlen
  simp [extractFromBytes_eq, getType, blank, extractBy, hx, hy, hz, Nat.not_lt.mpr hlen, decoded]

theorem readsBack_transform3d (m : Vector UInt32 16) :
    ReadsBack (.transform3d m) (LValue.transform3d m).decoded := by
  refine ⟨_, rfl, ?_⟩
  intro b offset hat
  have hlen := hat.le_length
  rw [length_flatMap_cells, Vector.length_toList] at hlen
  have hcells := cells_encoded offset 0 (by simpa using hat)
  rw [Vector.length_toList, ← List.range_eq_range'] at hcells
  simp [extractFromBytes_eq, getType, blank, extractBy, hcells, Nat.not_lt.mpr hlen, decoded]

/-- Every encodable tree reads back as `decoded`, consuming exactly its bytes. -/
theorem readsBack_decoded (v : LValue) (hv : v.Encodable) : ReadsBack v v.decoded := by
  induction v using childInduction with
  | node v ih =>
    have hhere := hv.here
    replace ih : ∀ c ∈ v.children, ReadsBack c c.decoded := fun c hc => ih c hc (hv.child hc)
    cases v <;> simp only [WireOk] at hhere
    case void => exact ⟨[], rfl, fun b offset _ => rfl⟩
    case integer n => exact readsBack_integer n
    case symbol s => exact readsBack_symbol hhere
    case string s => exact readsBack_string hhere
    case picture d => exact readsBack_picture hhere
    case float bits => exact readsBack_float bits
    case list vs => exact readsBack_list ih hhere
    case point x y => exact readsBack_point ih
    case rect l t r bt => exact readsBack_rect ih
    case propList ps vs =>
      apply readsBack_propList
      · exact fun c hc => ih c (List.mem_append_left vs hc)
      · exact fun c hc => ih c (List.mem_append_right ps hc)
      · exact hhere.1
      · exact hhere.2
    case color r g bl => exact readsBack_color r g bl
    case date d => exact readsBack_date d
    case vector3d x y z => exact readsBack_vector3d x y z
    case transform3d m => exact readsBack_transform3d m

end Encoded

section Faithful

theorem length_decodedEach (vs : List LValue) : (decodedEach vs).length = vs.length := by
  simp [decodedEach_eq_map]

theorem map_eq_self_iff {α : Type*} {f : α → α} {xs : List α} :
    xs.map f = xs ↔ ∀ x ∈ xs, f x = x := by
  simpa using List.map_eq_map_iff (f := f) (g := id) (l := xs)

/-- A tree is unchanged exactly when each child is unchanged by the double read. -/
theorem decoded_eq_iff_children (v : LValue) :
    v.decoded = v ↔ ∀ c ∈ v.children, c.decoded.again = c := by
  cases v <;> simp [decoded, children, decodedEach_eq_map, map_eq_self_iff, or_imp, forall_and]

theorem again_decoded_eq_iff (v : LValue) :
    v.decoded.again = v ↔ NoPairs v ∧ v.decoded = v := by
  cases v
  case propList ps vs =>
    simp only [decoded, again, NoPairs, propList.injEq]
    constructor
    · rintro ⟨hps, hvs⟩
      have hpl := congrArg List.length hps
      have hvl := congrArg List.length hvs
      simp only [List.length_append, length_decodedEach] at hpl hvl
      obtain rfl := List.length_eq_zero_iff.mp (show ps.length = 0 by omega)
      obtain rfl := List.length_eq_zero_iff.mp (show vs.length = 0 by omega)
      exact ⟨⟨rfl, rfl⟩, rfl, rfl⟩
    · rintro ⟨⟨rfl, rfl⟩, -⟩
      exact ⟨rfl, rfl⟩
  all_goals simp [decoded, again, NoPairs]

theorem again_decoded_eq_iff_everywhere (v : LValue) :
    v.decoded.again = v ↔ Everywhere NoPairs v := by
  induction v using childInduction with
  | node v ih =>
    rw [again_decoded_eq_iff, decoded_eq_iff_children, everywhere_iff]
    exact and_congr_right fun _ => forall₂_congr ih

/-- Encoding an encodable tree and decoding the bytes gives the tree back exactly
when no property list below its root holds a pair. -/
theorem fromRawBytes_getBytes_eq_iff (v : LValue) (hv : v.Encodable) :
    ∃ bytes, v.getBytes = some bytes ∧
      (fromRawBytes bytes 0 = some v ↔ ∀ c ∈ v.children, Everywhere NoPairs c) := by
  obtain ⟨bytes, hbytes, -, hread⟩ := (readsBack_decoded v hv).child
  refine ⟨bytes, hbytes, ?_⟩
  rw [fromRawBytes, if_pos (by norm_num), (hread bytes 0 (standsAt_whole bytes)).1,
    Option.some.injEq, decoded_eq_iff_children]
  exact forall₂_congr fun c _ => again_decoded_eq_iff_everywhere c

/-- A property list at the root, with a list below it. -/
theorem fromRawBytes_getBytes_flat_propList :
    ∃ bytes, (propList [.symbol (lit "a")] [.list [.integer 1]]).getBytes = some bytes ∧
      (fromRawBytes bytes 0 = some (propList [.symbol (lit "a")] [.list [.integer 1]]) ↔
        ∀ c ∈ (propList [.symbol (lit "a")] [.list [.integer 1]]).children,
          Everywhere NoPairs c) :=
  fromRawBytes_getBytes_eq_iff _ (by decide +kernel)

/-- A property list inside a list comes back with its pair twice. -/
theorem fromRawBytes_getBytes_nested_propList :
    let v : LValue := .list [.propList [.symbol (lit "a")] [.integer 1]]
    v.Encodable ∧ v.getBytes.bind (fromRawBytes · 0) =
      some (.list [.propList [.symbol (lit "a"), .symbol (lit "a")] [.integer 1, .integer 1]]) ∧
    v.getBytes.bind (fromRawBytes · 0) ≠ some v := by
  decide +kernel

end Faithful

end Musgos.Lingo.LValue
