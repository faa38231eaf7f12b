import Musgos.Lingo.Wire

/-!
# Decoding is total

The decoder never runs out of fuel, never reads outside its buffer and never
calls a method on nil, so `extractFromBytes` satisfies the recursive equation of
the source with no fuel in it. A second `ExtractFromBytes` on a decoded object
changes nothing, except that a property list appends all its pairs once more.
-/
namespace Musgos.Lingo.LValue

open Foundation

variable {ext ext' : LValue → ℕ → Option (LValue × ℕ)} {b : List UInt8}

/-- The two recursive calls give the same answers from some offset on. -/
def Agree (ext ext' : LValue → ℕ → Option (LValue × ℕ)) (start : ℕ) : Prop :=
  ∀ obj offset, start ≤ offset → ext obj offset = ext' obj offset

theorem childBy_congr {offset : ℕ} (h : Agree ext ext' (offset + 2)) :
    childBy ext b offset = childBy ext' b offset := by
  have hext : ∀ obj, ext obj (offset + 2) = ext' obj (offset + 2) := fun obj => h obj _ le_rfl
  simp only [childBy, fromRawBytesBy, hext]

theorem fieldLoop_congr {offset : ℕ} (h : offset + 2 ≤ b.length → Agree ext ext' (offset + 2))
    (olds : List LValue) (consumed : ℕ) :
    fieldLoop ext b offset consumed olds = fieldLoop ext' b offset consumed olds := by
  induction olds generalizing consumed with
  | nil => rfl
  | cons old olds ih =>
    simp only [fieldLoop, ih]
    split_ifs with hlen
    · rfl
    · have hc : childBy ext b (offset + consumed) = childBy ext' b (offset + consumed) :=
        childBy_congr fun obj o ho => h (by omega) obj o (by omega)
      rw [hc]

theorem listLoop_congr {start : ℕ} (h : Agree ext ext' (start + 2)) (count current : ℕ)
    (hs : start ≤ current) : listLoop ext b count current = listLoop ext' b count current := by
  induction count generalizing current with
  | zero => rfl
  | succ count ih =>
    have hc : childBy ext b current = childBy ext' b current :=
      childBy_congr fun obj o ho => h obj o (by omega)
    simp only [listLoop, hc]
    cases childBy ext' b current with
    | none => rfl
    | some r =>
      simp only [Option.bind_eq_bind, Option.bind_some, ih (current + (2 + r.2)) (by omega)]

theorem pairLoop_congr {offset : ℕ} (h : Agree ext ext' (offset + 2)) (remaining chunk : ℕ) :
    pairLoop ext b offset remaining chunk = pairLoop ext' b offset remaining chunk := by
  induction remaining generalizing chunk with
  | zero => rfl
  | succ remaining ih =>
    have hc : ∀ o, childBy ext b (offset + o) = childBy ext' b (offset + o) :=
      fun o => childBy_congr fun obj o' ho => h obj o' (by omega)
    simp only [pairLoop, hc, ih]

/-- Recursive calls happen only inside the buffer and only further on. -/
theorem extractBy_congr {offset : ℕ}
    (h : offset + 2 ≤ b.length → Agree ext ext' (offset + 2)) (obj : LValue) :
    extractBy ext b obj offset = extractBy ext' b obj offset := by
  cases obj
  case point => simp only [extractBy, fieldLoop_congr h]
  case rect => simp only [extractBy, fieldLoop_congr h]
  case list vs =>
    simp only [extractBy]
    split_ifs with hlen
    · rfl
    · have hl : ∀ n, listLoop ext b n (offset + 4) = listLoop ext' b n (offset + 4) :=
        fun n => listLoop_congr (h (by omega)) n _ (by omega)
      simp only [hl]
  case propList =>
    simp only [extractBy]
    split_ifs with hlen
    · rfl
    · simp only [pairLoop_congr (h (by omega))]
  all_goals rfl

theorem extractFuel_congr (f g : ℕ) (obj : LValue) (offset : ℕ) (hf : 1 ≤ f) (hg : 1 ≤ g)
    (hfb : b.length < f + offset) (hgb : b.length < g + offset) :
    extractFuel b f obj offset = extractFuel b g obj offset := by
  induction f generalizing g obj offset with
  | zero => omega
  | succ f ih =>
    obtain ⟨g, rfl⟩ : ∃ g', g = g' + 1 := ⟨g - 1, by omega⟩
    apply extractBy_congr
    intro hlen child o ho
    exact ih g child o (by omega) (by omega) (by omega) (by omega)

/-- The recursive equation of the source, free of fuel. -/
theorem extractFromBytes_eq (b : List UInt8) (obj : LValue) (offset : ℕ) :
    extractFromBytes b obj offset = extractBy (extractFromBytes b) b obj offset := by
  apply extractBy_congr
  intro hlen child o ho
  exact extractFuel_congr _ _ child o (by omega) (by omega) (by omega) (by omega)

/-- An extraction comes to an end with an object. -/
def Returns (x : Option (LValue × ℕ)) : Prop :=
  ∃ r, x = some r ∧ r.1 ≠ .nil

namespace Returns

theorem pure {v : LValue} {n : ℕ} (hv : v ≠ .nil) : Returns (some (v, n)) :=
  ⟨_, rfl, hv⟩

theorem orElse {c : Prop} [Decidable c] {v : LValue} {n : ℕ} {x : Option (LValue × ℕ)}
    (hv : v ≠ .nil) (hx : ¬ c → Returns x) : Returns (if c then some (v, n) else x) := by
  split_ifs with hc
  · exact pure hv
  · exact hx hc

theorem bind {α : Type*} {x : Option α} {f : α → Option (LValue × ℕ)} (hx : ∃ a, x = some a)
    (hf : ∀ a, Returns (f a)) : Returns (x.bind f) := by
  obtain ⟨a, rfl⟩ := hx
  exact hf a

end Returns

/-- From some offset on, every call on an object returns an object. -/
def TotalFrom (ext : LValue → ℕ → Option (LValue × ℕ)) (start : ℕ) : Prop :=
  ∀ obj offset, obj ≠ .nil → start ≤ offset → Returns (ext obj offset)

theorem blank_ne_nil (code : ℕ) : blank code ≠ .nil := by
  unfold blank
  split <;> simp

theorem fromRawBytesBy_total {offset : ℕ} (h : TotalFrom ext (offset + 2)) :
    ∃ v, fromRawBytesBy ext b offset = some v ∧ v ≠ .nil := by
  unfold fromRawBytesBy
  split_ifs with hlen
  · exact ⟨.void, rfl, by simp⟩
  · obtain ⟨code, hcode, -⟩ := exists_uintAt 2 b offset (by omega)
    obtain ⟨r, hr, hne⟩ := h (blank code) (offset + 2) (blank_ne_nil code) le_rfl
    exact ⟨r.1, by simp [hcode, hr], hne⟩

theorem childBy_total (b : List UInt8) (offset : ℕ) (h : TotalFrom ext (offset + 2)) :
    Returns (childBy ext b offset) := by
  obtain ⟨v, hv, hne⟩ := fromRawBytesBy_total (b := b) h
  obtain ⟨r, hr, hrne⟩ := h v (offset + 2) hne le_rfl
  exact ⟨r, by simp [childBy, hv, hr], hrne⟩

theorem fieldLoop_total {offset : ℕ} (h : offset + 2 ≤ b.length → TotalFrom ext (offset + 2))
    (olds : List LValue) (consumed : ℕ) :
    ∃ r, fieldLoop ext b offset consumed olds = some r ∧ r.1.length = olds.length := by
  induction olds generalizing consumed with
  | nil => exact ⟨_, rfl, rfl⟩
  | cons old olds ih =>
    unfold fieldLoop
    split_ifs with hlen
    · exact ⟨_, rfl, rfl⟩
    · obtain ⟨c, hc, -⟩ := childBy_total b (offset + consumed)
        fun obj o hobj ho => h (by omega) obj o hobj (by omega)
      obtain ⟨r, hr, hrl⟩ := ih (consumed + (2 + c.2))
      exact ⟨_, by simp only [hc, hr, Option.bind_eq_bind, Option.bind_some]; rfl, by simp [hrl]⟩

theorem listLoop_total {start : ℕ} (h : TotalFrom ext (start + 2)) (count current : ℕ)
    (hs : start ≤ current) : ∃ r, listLoop ext b count current = some r := by
  induction count generalizing current with
  | zero => exact ⟨_, rfl⟩
  | succ count ih =>
    obtain ⟨c, hc, -⟩ := childBy_total b current
      fun obj o hobj ho => h obj o hobj (by omega)
    obtain ⟨r, hr⟩ := ih (current + (2 + c.2)) (by omega)
    exact ⟨_, by simp only [listLoop, hc, hr, Option.bind_eq_bind, Option.bind_some]; rfl⟩

theorem pairLoop_total {offset : ℕ} (h : TotalFrom ext (offset + 2)) (remaining chunk : ℕ) :
    ∃ r, pairLoop ext b offset remaining chunk = some r := by
  induction remaining generalizing chunk with
  | zero => exact ⟨_, rfl⟩
  | succ remaining ih =>
    unfold pairLoop
    split_ifs with hlen
    · exact ⟨_, rfl⟩
    · obtain ⟨p, hp, -⟩ := childBy_total b (offset + chunk)
        fun obj o hobj ho => h obj o hobj (by omega)
      obtain ⟨v, hv, -⟩ := childBy_total b (offset + (chunk + 2 + p.2))
        fun obj o hobj ho => h obj o hobj (by omega)
      obtain ⟨r, hr⟩ := ih (chunk + 2 + p.2 + 2 + v.2)
      simp only [hp, hv, hr, Option.bind_eq_bind, Option.bind_some]
      split_ifs <;> exact ⟨_, rfl⟩

theorem countedBytes_total (offset : ℕ) : ∃ r, countedBytes b offset = some r := by
  unfold countedBytes
  split_ifs with hlen
  · exact ⟨none, rfl⟩
  · obtain ⟨n, hn, -⟩ := exists_uintAt 4 b offset (by omega)
    simp only [hn, Option.bind_eq_bind, Option.bind_some]
    split_ifs with hn'
    · exact ⟨none, rfl⟩
    · rw [slice_eq_some (by omega)]
      exact ⟨_, rfl⟩

theorem cells_total (offset : ℕ) (h : offset + 64 ≤ b.length) :
    ∃ cells, (List.range 16).mapM (fun i => uintAt 4 b (offset + i * 4)) = some cells := by
  have hall : ∀ is : List ℕ, (∀ i ∈ is, i < 16) →
      ∃ cells, is.mapM (fun i => uintAt 4 b (offset + i * 4)) = some cells := by
    intro is
    induction is with
    | nil => exact fun _ => ⟨[], rfl⟩
    | cons i is ih =>
      intro his
      have hi := his i (by simp)
      obtain ⟨n, hn, -⟩ := exists_uintAt 4 b (offset + i * 4) (by omega)
      obtain ⟨cells, hcells⟩ := ih fun j hj => his j (by simp [hj])
      exact ⟨n :: cells, by simp [List.mapM_cons, hn, hcells]⟩
  exact hall _ fun i hi => by simpa using hi

theorem fieldLoop_returns {offset : ℕ} (h : offset + 2 ≤ b.length → TotalFrom ext (offset + 2))
    (olds : List LValue) {f : List LValue × Option ℕ → Option (LValue × ℕ)}
    (hf : ∀ r, r.1.length = olds.length → Returns (f r)) :
    Returns ((fieldLoop ext b offset 0 olds).bind f) := by
  obtain ⟨r, hr, hlen⟩ := fieldLoop_total (b := b) h olds 0
  rw [hr]
  exact hf r hlen

theorem extractBy_total {offset : ℕ} (h : offset + 2 ≤ b.length → TotalFrom ext (offset + 2))
    {obj : LValue} (hobj : obj ≠ .nil) : Returns (extractBy ext b obj offset) := by
  have huint : ∀ {w o}, o + w ≤ b.length → ∃ n, uintAt w b o = some n :=
    fun ho => (exists_uintAt _ b _ ho).imp fun _ hn => hn.1
  have hget : ∀ {i}, i < b.length → ∃ x, b[i]? = some x :=
    fun hi => ⟨_, List.getElem?_eq_getElem hi⟩
  cases obj <;> simp only [extractBy]
  case nil => exact absurd rfl hobj
  case void | media => exact .pure (by simp)
  case integer | float =>
    exact .orElse (by simp) fun hlen => .bind (huint (by omega)) fun _ => .pure (by simp)
  case symbol | string | picture =>
    refine .bind (countedBytes_total offset) fun d => ?_
    cases d <;> exact .pure (by simp)
  case list =>
    refine .orElse (by simp) fun hlen => .bind (huint (by omega)) fun n => .orElse (by simp) ?_
    exact fun _ => .bind (listLoop_total (h (by omega)) n _ (by omega)) fun _ => .pure (by simp)
  case point =>
    refine fieldLoop_returns h _ fun r hr => ?_
    obtain ⟨fs, consumed⟩ := r
    obtain ⟨x, y, rfl⟩ := List.length_eq_two.mp hr
    exact .pure (by simp)
  case rect =>
    refine fieldLoop_returns h _ fun r hr => ?_
    obtain ⟨fs, consumed⟩ := r
    obtain ⟨x, y, z, w, rfl⟩ := List.length_eq_four.mp hr
    exact .pure (by simp)
  case propList =>
    refine .orElse (by simp) fun hlen => .bind (huint (by omega)) fun n => ?_
    exact .bind (pairLoop_total (h (by omega)) n 4) fun _ => .pure (by simp)
  case color =>
    refine .orElse (by simp) fun hlen => .bind (hget (by omega)) fun _ => ?_
    exact .bind (hget (by omega)) fun _ => .bind (hget (by omega)) fun _ => .pure (by simp)
  case date =>
    exact .orElse (by simp) fun hlen => .bind ⟨_, slice_eq_some (by omega)⟩ fun _ =>
      .pure (by simp)
  case vector3d =>
    refine .orElse (by simp) fun hlen => .bind (huint (by omega)) fun _ => ?_
    exact .bind (huint (by omega)) fun _ => .bind (huint (by omega)) fun _ => .pure (by simp)
  case transform3d =>
    exact .orElse (by simp) fun hlen => .bind (cells_total offset (by omega)) fun _ =>
      .pure (by simp)

theorem extractFuel_total (fuel : ℕ) (obj : LValue) (offset : ℕ) (hobj : obj ≠ .nil)
    (hfuel : 1 ≤ fuel) (hb : b.length < fuel + offset) :
    Returns (extractFuel b fuel obj offset) := by
  induction fuel generalizing obj offset with
  | zero => omega
  | succ fuel ih =>
    refine extractBy_total (fun hlen child o hchild ho => ?_) hobj
    exact ih child o hchild (by omega) (by omega)

/-- `ExtractFromBytes` of an object always returns, at every offset of every buffer. -/
theorem extractFromBytes_total (b : List UInt8) {obj : LValue} (hobj : obj ≠ .nil)
    (offset : ℕ) : ∃ r, extractFromBytes b obj offset = some r ∧ r.1 ≠ .nil :=
  extractFuel_total _ obj offset hobj (by omega) (by omega)

/-- `FromRawBytes` returns a value for every buffer and every offset that does
not overflow. -/
theorem fromRawBytes_total (b : List UInt8) {offset : ℕ} (hoffset : offset + 2 < 2 ^ 63) :
    ∃ v, fromRawBytes b offset = some v ∧ v ≠ .nil := by
  rw [fromRawBytes, if_pos hoffset]
  exact fromRawBytesBy_total fun _ _ hobj _ => extractFromBytes_total b hobj _

/-- What the second `ExtractFromBytes` of a container makes of a decoded child:
a property list does not clear its slices first. -/
def again : LValue → LValue
  | .propList ps vs => .propList (ps ++ ps) (vs ++ vs)
  | v => v

theorem fieldLoop_again {offset : ℕ} {olds fs : List LValue} {consumed : ℕ} {c : Option ℕ}
    (h : fieldLoop ext b offset consumed olds = some (fs, c)) :
    fieldLoop ext b offset consumed fs = some (fs, c) := by
  induction olds generalizing consumed fs with
  | nil =>
    simp only [fieldLoop, Option.some.injEq, Prod.mk.injEq] at h
    obtain ⟨rfl, rfl⟩ := h
    rfl
  | cons old olds ih =>
    unfold fieldLoop at h
    split_ifs at h with hlen
    · simp only [Option.some.injEq, Prod.mk.injEq] at h
      obtain ⟨rfl, rfl⟩ := h
      simp [fieldLoop, hlen]
    · simp only [Option.bind_eq_bind, Option.bind_eq_some_iff, Option.pure_def,
        Option.some.injEq, Prod.mk.injEq] at h
      obtain ⟨r, hr, rest, hrest, rfl, rfl⟩ := h
      simp [fieldLoop, hlen, hr, ih hrest]

/-- Extracting once more from the same place finds the same size. -/
theorem extractBy_again {obj v : LValue} {offset n : ℕ}
    (hobj : ∀ ps vs, obj = .propList ps vs → ps = [] ∧ vs = [])
    (h : extractBy ext b obj offset = some (v, n)) :
    extractBy ext b v offset = some (v.again, n) := by
  cases obj <;> simp only [extractBy] at h
  case nil => cases h
  case void | media => cases h; rfl
  case point | rect =>
    simp only [Option.bind_eq_bind, Option.bind_eq_some_iff] at h
    obtain ⟨r, hr, h⟩ := h
    split at h
    · simp only [Option.pure_def, Option.some.injEq, Prod.mk.injEq] at h
      obtain ⟨rfl, rfl⟩ := h
      simp [extractBy, fieldLoop_again hr, again]
    · cases h
  case symbol | string | picture =>
    obtain ⟨_ | d, hd⟩ := countedBytes_total (b := b) offset <;> rw [hd] at h <;>
      simp only [Option.bind_eq_bind, Option.bind_some, Option.pure_def, Option.some.injEq,
        Prod.mk.injEq] at h <;>
      obtain ⟨rfl, rfl⟩ := h <;> simp [extractBy, hd, again]
  case list =>
    split_ifs at h with hlen
    · cases h; simp [extractBy, hlen, again]
    · simp only [Option.bind_eq_bind, Option.bind_eq_some_iff] at h
      obtain ⟨count, hcount, h⟩ := h
      split_ifs at h with hmax
      · cases h; simp [extractBy, hlen, hcount, hmax, again]
      · simp only [Option.bind_eq_some_iff, Option.pure_def, Option.some.injEq,
          Prod.mk.injEq] at h
        obtain ⟨r, hr, rfl, rfl⟩ := h
        simp [extractBy, hlen, hcount, hmax, hr, again]
  case propList ps vs =>
    obtain ⟨rfl, rfl⟩ := hobj ps vs rfl
    split_ifs at h with hlen
    · cases h; simp [extractBy, hlen, again]
    · simp only [Option.bind_eq_bind, Option.bind_eq_some_iff, Option.pure_def,
        Option.some.injEq, Prod.mk.injEq] at h
      obtain ⟨count, hcount, r, hr, rfl, rfl⟩ := h
      simp [extractBy, hlen, hcount, hr, again]
  case integer | float | date | transform3d =>
    split_ifs at h with hlen
    · cases h; simp [extractBy, hlen, again]
    · simp only [Option.bind_eq_bind, Option.bind_eq_some_iff, Option.pure_def,
        Option.some.injEq, Prod.mk.injEq] at h
      obtain ⟨x, hx, rfl, rfl⟩ := h
      simp [extractBy, hlen, hx, again]
  case color | vector3d =>
    split_ifs at h with hlen
    · cases h; simp [extractBy, hlen, again]
    · simp only [Option.bind_eq_bind, Option.bind_eq_some_iff, Option.pure_def,
        Option.some.injEq, Prod.mk.injEq] at h
      obtain ⟨x, hx, y, hy, z, hz, rfl, rfl⟩ := h
      simp [extractBy, hlen, hx, hy, hz, again]

theorem blank_eq_propList {code : ℕ} {ps vs : List LValue} (h : blank code = .propList ps vs) :
    ps = [] ∧ vs = [] := by
  unfold blank at h
  split at h <;> simp_all

/-- A child with a complete header: one decoded object, extracted once for the
value and once more for the size. -/
theorem readChild_eq {code offset n : ℕ} {v : LValue} (hcode : uintAt 2 b offset = some code)
    (hlen : offset + 2 ≤ b.length)
    (h : extractFromBytes b (blank code) (offset + 2) = some (v, n)) :
    fromRawBytesBy (extractFromBytes b) b offset = some v ∧
      readChild b offset = some (v.again, n) := by
  have hfirst : fromRawBytesBy (extractFromBytes b) b offset = some v := by
    simp [fromRawBytesBy, Nat.not_lt.mpr hlen, hcode, h]
  refine ⟨hfirst, ?_⟩
  rw [extractFromBytes_eq] at h
  have hsecond := extractBy_again (fun _ _ => blank_eq_propList) h
  rw [← extractFromBytes_eq] at hsecond
  simp [readChild, childBy, hfirst, hsecond]

/-- A child whose header is cut off is a void that reports no size. -/
theorem readChild_short {offset : ℕ} (hlen : b.length < offset + 2) :
    fromRawBytesBy (extractFromBytes b) b offset = some .void ∧
      readChild b offset = some (.void, 0) := by
  simp [readChild, childBy, fromRawBytesBy, hlen, extractFromBytes_eq, extractBy]

end Musgos.Lingo.LValue
