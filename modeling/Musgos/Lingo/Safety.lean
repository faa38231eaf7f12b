import Musgos.Lingo.WireTotal
import Musgos.Lingo.Text
import Musgos.Lingo.Codec

/-!
# Which buffers decode to values that are safe to use

A point or rect whose later components are cut off keeps nil components, and
every method that reaches one panics. `complete` reads nothing of a buffer but
type codes, lengths and counts, and tells whether every point and rect that the
decoder keeps has all its component headers inside the buffer. That is exactly
when the decoded value is well formed, and then it can be encoded, printed and
stored.
-/
namespace Musgos.Lingo.LValue

open Foundation

section Scan

variable (rec : ℕ → ℕ → ℕ × Bool) (b : List UInt8)

/-- The big-endian number in the `width` bytes at `offset`. -/
def wordAt (width offset : ℕ) : ℕ := beNat ((b.drop offset).take width)

/-- Size and completeness of the value whose header is at `offset`. -/
def scanChild (offset : ℕ) : ℕ × Bool :=
  if b.length < offset + 2 then (0, true) else rec (wordAt b 2 offset) (offset + 2)

/-- The components of a point or rect: how many are left is the second argument. -/
def scanFields (offset : ℕ) : ℕ → ℕ → ℕ × Bool
  | consumed, 0 => (consumed, true)
  | consumed, k + 1 =>
    if b.length < offset + consumed + 2 then (0, false)
    else
      let r := scanChild rec b (offset + consumed)
      let rest := scanFields offset (consumed + (2 + r.1)) k
      (rest.1, r.2 && rest.2)

def scanList : ℕ → ℕ → ℕ × Bool
  | 0, current => (current, true)
  | count + 1, current =>
    let r := scanChild rec b current
    let rest := scanList count (current + (2 + r.1))
    (rest.1, r.2 && rest.2)

/-- The pairs of a property list; a property whose value is cut off is not kept. -/
def scanPairs (offset : ℕ) : ℕ → ℕ → ℕ × Bool
  | 0, chunk => (chunk, true)
  | remaining + 1, chunk =>
    if b.length < offset + chunk + 2 then (chunk, true)
    else
      let p := scanChild rec b (offset + chunk)
      let next := chunk + 2 + p.1
      if b.length < offset + next + 2 then (chunk, true)
      else
        let v := scanChild rec b (offset + next)
        let rest := scanPairs offset remaining (next + 2 + v.1)
        (rest.1, p.2 && v.2 && rest.2)

/-- The size of length-prefixed bytes, with `pad` bytes after them. -/
def scanCounted (pad : ℕ → ℕ) (offset : ℕ) : ℕ :=
  if b.length < offset + 4 then 0
  else
    let length := wordAt b 4 offset
    if b.length < offset + 4 + length then 0 else 4 + length + pad length

def scanFixed (width offset : ℕ) : ℕ := if b.length < offset + width then 0 else width

/-- Size and completeness of the body of a value with the given type code. -/
def scanBy (code offset : ℕ) : ℕ × Bool :=
  match code with
  | vtInteger => (scanFixed b 4 offset, true)
  | vtSymbol => (scanCounted b (· % 2) offset, true)
  | vtString => (scanCounted b (· % 2) offset, true)
  | vtPicture => (scanCounted b (fun _ => 0) offset, true)
  | vtFloat => (scanFixed b 8 offset, true)
  | vtList =>
    if b.length < offset + 4 then (0, true)
    else if (b.length - offset - 4) / 2 < wordAt b 4 offset then (0, true)
    else
      let r := scanList rec b (wordAt b 4 offset) (offset + 4)
      (r.1 - offset, r.2)
  | vtPoint => scanFields rec b offset 0 2
  | vtRect => scanFields rec b offset 0 4
  | vtPropList =>
    if b.length < offset + 4 then (0, true) else scanPairs rec b offset (wordAt b 4 offset) 4
  | vtColor => (scanFixed b 4 offset, true)
  | vtDate => (scanFixed b 8 offset, true)
  | vtMedia => (0, true)
  | vt3dVector => (scanFixed b 12 offset, true)
  | vt3dTransform => (scanFixed b 64 offset, true)
  | _ => (0, true)

end Scan

def scanFuel (b : List UInt8) : ℕ → ℕ → ℕ → ℕ × Bool
  | 0, _, _ => (0, true)
  | fuel + 1, code, offset => scanBy (scanFuel b fuel) b code offset

/-- Every point and rect that decoding at `offset` keeps has all its component
headers inside the buffer. -/
def complete (b : List UInt8) (offset : ℕ) : Bool :=
  (scanChild (scanFuel b (b.length + 1)) b offset).2

/-- The size that is reported for the value whose header is at `offset`. -/
def sizeAt (b : List UInt8) (offset : ℕ) : ℕ :=
  (scanChild (scanFuel b (b.length + 1)) b offset).1

section Tracks

variable {rec : ℕ → ℕ → ℕ × Bool} {b : List UInt8}

/-- From `start` on, the scan knows the size of each value and whether it is well formed. -/
def Tracks (b : List UInt8) (rec : ℕ → ℕ → ℕ × Bool) (start : ℕ) : Prop :=
  ∀ code offset, start ≤ offset → ∃ v n,
    extractFromBytes b (blank code) offset = some (v, n) ∧
      rec code offset = (n, decide v.WellFormed)

theorem uintAt_eq_wordAt (width offset : ℕ) (h : offset + width ≤ b.length) :
    uintAt width b offset = some (wordAt b width offset) := by
  rw [uintAt, slice_eq_some h]
  rfl

@[simp] theorem wellFormed_again (v : LValue) : v.again.WellFormed ↔ v.WellFormed := by
  cases v
  case propList ps vs =>
    simp only [again, wellFormed_propList, List.length_append, List.mem_append, or_self]
    constructor <;> rintro ⟨hlen, hps, hvs⟩ <;> exact ⟨by omega, hps, hvs⟩
  all_goals rfl

theorem fromRawBytesBy_scan (offset : ℕ) (h : Tracks b rec (offset + 2)) :
    ∃ v n, fromRawBytesBy (extractFromBytes b) b offset = some v ∧
      readChild b offset = some (v.again, n) ∧
      scanChild rec b offset = (n, decide v.WellFormed) := by
  by_cases hlen : b.length < offset + 2
  · obtain ⟨hfirst, hchild⟩ := readChild_short hlen
    have hvoid : LValue.void.WellFormed := wellFormed_of_leaf trivial rfl
    exact ⟨.void, 0, hfirst, hchild, by simp [scanChild, hlen, hvoid]⟩
  · have hlen' : offset + 2 ≤ b.length := by omega
    obtain ⟨v, n, hv, hrec⟩ := h (wordAt b 2 offset) (offset + 2) le_rfl
    obtain ⟨hfirst, hchild⟩ := readChild_eq (uintAt_eq_wordAt 2 offset hlen') hlen' hv
    exact ⟨v, n, hfirst, hchild, by simp [scanChild, hlen, hrec]⟩

theorem readChild_scan (offset : ℕ) (h : Tracks b rec (offset + 2)) :
    ∃ w n, readChild b offset = some (w, n) ∧
      scanChild rec b offset = (n, decide w.WellFormed) := by
  obtain ⟨v, n, -, hchild, hscan⟩ := fromRawBytesBy_scan offset h
  exact ⟨v.again, n, hchild, by simp [hscan]⟩

theorem fieldLoop_scan {offset : ℕ} (h : offset + 2 ≤ b.length → Tracks b rec (offset + 2))
    (k consumed : ℕ) :
    ∃ fs c, fieldLoop (extractFromBytes b) b offset consumed (List.replicate k .nil) =
        some (fs, c) ∧ fs.length = k ∧
      scanFields rec b offset consumed k = (c.getD 0, decide (∀ f ∈ fs, f.WellFormed)) := by
  induction k generalizing consumed with
  | zero => exact ⟨[], some consumed, rfl, rfl, rfl⟩
  | succ k ih =>
    by_cases hlen : b.length < offset + consumed + 2
    · refine ⟨List.replicate (k + 1) .nil, none, ?_, by simp, ?_⟩
      · simp [List.replicate_succ, fieldLoop, hlen]
      · simp [scanFields, hlen]
    · obtain ⟨w, n, hchild, hscan⟩ := readChild_scan (offset + consumed)
        fun code o ho => h (by omega) code o (by omega)
      obtain ⟨fs, c, hloop, hlength, hrest⟩ := ih (consumed + (2 + n))
      unfold readChild at hchild
      refine ⟨w :: fs, c, ?_, by simp [hlength], ?_⟩
      · simp [List.replicate_succ, fieldLoop, hlen, hchild, hloop]
      · simp [scanFields, hlen, hscan, hrest]

theorem listLoop_scan {start : ℕ} (h : Tracks b rec (start + 2)) (count current : ℕ)
    (hs : start ≤ current) :
    ∃ vs final, listLoop (extractFromBytes b) b count current = some (vs, final) ∧
      scanList rec b count current = (final, decide (∀ v ∈ vs, v.WellFormed)) := by
  induction count generalizing current with
  | zero => exact ⟨[], current, rfl, rfl⟩
  | succ count ih =>
    obtain ⟨w, n, hchild, hscan⟩ := readChild_scan current
      fun code o ho => h code o (by omega)
    obtain ⟨vs, final, hloop, hrest⟩ := ih (current + (2 + n)) (by omega)
    unfold readChild at hchild
    exact ⟨w :: vs, final, by simp [listLoop, hchild, hloop], by simp [scanList, hscan, hrest]⟩

theorem pairLoop_scan {offset : ℕ} (h : Tracks b rec (offset + 2)) (remaining chunk : ℕ) :
    ∃ pairs final, pairLoop (extractFromBytes b) b offset remaining chunk = some (pairs, final) ∧
      scanPairs rec b offset remaining chunk =
        (final, decide (∀ e ∈ pairs, e.1.WellFormed ∧ e.2.WellFormed)) := by
  induction remaining generalizing chunk with
  | zero => exact ⟨[], chunk, rfl, rfl⟩
  | succ remaining ih =>
    by_cases hlen : b.length < offset + chunk + 2
    · exact ⟨[], chunk, by simp [pairLoop, hlen], by simp [scanPairs, hlen]⟩
    obtain ⟨p, n, hp, hpScan⟩ := readChild_scan (offset + chunk)
      fun code o ho => h code o (by omega)
    unfold readChild at hp
    by_cases hnext : b.length < offset + (chunk + 2 + n) + 2
    · exact ⟨[], chunk, by simp [pairLoop, hlen, hp, hnext],
        by simp [scanPairs, hlen, hpScan, hnext]⟩
    obtain ⟨v, m, hv, hvScan⟩ := readChild_scan (offset + (chunk + 2 + n))
      fun code o ho => h code o (by omega)
    unfold readChild at hv
    obtain ⟨pairs, final, hloop, hrest⟩ := ih (chunk + 2 + n + 2 + m)
    refine ⟨(p, v) :: pairs, final, by simp [pairLoop, hlen, hp, hnext, hv, hloop], ?_⟩
    simp only [scanPairs, hlen, hpScan, hnext, hvScan, hrest, if_false, List.forall_mem_cons,
      Bool.decide_and, Bool.and_assoc]

theorem countedBytes_scan (offset : ℕ) :
    ∃ r, countedBytes b offset = some r ∧ ∀ pad : ℕ → ℕ,
      scanCounted b pad offset = r.elim 0 fun d => 4 + d.length + pad d.length := by
  by_cases hlen : b.length < offset + 4
  · exact ⟨none, by simp [countedBytes, hlen], fun pad => by simp [scanCounted, hlen]⟩
  have hword := uintAt_eq_wordAt (b := b) 4 offset (by omega)
  by_cases hdata : b.length < offset + 4 + wordAt b 4 offset
  · exact ⟨none, by simp [countedBytes, hlen, hword, hdata],
      fun pad => by simp [scanCounted, hlen, hdata]⟩
  refine ⟨some ((b.drop (offset + 4)).take (wordAt b 4 offset)), ?_, fun pad => ?_⟩
  · simp [countedBytes, hlen, hword, hdata, slice_eq_some (Nat.not_lt.mp hdata)]
  · have hlength : ((b.drop (offset + 4)).take (wordAt b 4 offset)).length = wordAt b 4 offset := by
      simp
      omega
    simp only [scanCounted, hlen, hdata, if_false, Option.elim_some, hlength]

theorem extractBy_fixed (offset : ℕ) {code width : ℕ}
    (hcode : (code, width) ∈ [(vtInteger, 4), (vtFloat, 8), (vtColor, 4), (vtDate, 8),
      (vt3dVector, 12), (vt3dTransform, 64)]) :
    ∃ v, extractBy (extractFromBytes b) b (blank code) offset =
      some (v, scanFixed b width offset) ∧ decide v.WellFormed = true := by
  have hleaf : ∀ {v : LValue}, NodeOk v → v.children = [] → decide v.WellFormed = true :=
    fun hok hc => decide_eq_true (wellFormed_of_leaf hok hc)
  obtain ⟨⟨v, n⟩, hv, -⟩ := extractFromBytes_total b (blank_ne_nil code) offset
  rw [extractFromBytes_eq] at hv
  simp only [List.mem_cons, Prod.mk.injEq, List.not_mem_nil, or_false] at hcode
  rcases hcode with ⟨rfl, rfl⟩ | ⟨rfl, rfl⟩ | ⟨rfl, rfl⟩ | ⟨rfl, rfl⟩ | ⟨rfl, rfl⟩ | ⟨rfl, rfl⟩
  all_goals
    refine ⟨v, ?_⟩
    rw [hv]
    simp only [blank, extractBy] at hv
    split_ifs at hv with hlen
    · cases hv
      exact ⟨by simp [scanFixed, hlen], hleaf trivial rfl⟩
    · simp only [Option.bind_eq_bind, Option.bind_eq_some_iff, Option.pure_def,
        Option.some.injEq, Prod.mk.injEq] at hv
      rw [scanFixed, if_neg hlen]
      first
        | obtain ⟨_, _, rfl, rfl⟩ := hv
          exact ⟨rfl, hleaf trivial rfl⟩
        | obtain ⟨_, _, _, _, _, _, rfl, rfl⟩ := hv
          exact ⟨rfl, hleaf trivial rfl⟩

theorem extractBy_scan_list {offset : ℕ} (h : offset + 2 ≤ b.length → Tracks b rec (offset + 2)) :
    ∃ v n, extractBy (extractFromBytes b) b (blank vtList) offset = some (v, n) ∧
      scanBy rec b vtList offset = (n, decide v.WellFormed) := by
  by_cases hlen : b.length < offset + 4
  · exact ⟨.list [], 0, by simp [blank, extractBy, hlen], by simp [scanBy, hlen]⟩
  have hword := uintAt_eq_wordAt (b := b) 4 offset (by omega)
  by_cases hmax : (b.length - offset - 4) / 2 < wordAt b 4 offset
  · exact ⟨.list [], 0, by simp [blank, extractBy, hlen, hword, hmax],
      by simp [scanBy, hlen, hmax]⟩
  obtain ⟨vs, final, hloop, hscan⟩ := listLoop_scan (h (by omega)) (wordAt b 4 offset)
    (offset + 4) (by omega)
  exact ⟨.list vs, final - offset, by simp [blank, extractBy, hlen, hword, hmax, hloop],
    by simp [scanBy, hlen, hmax, hscan]⟩

theorem wellFormed_pairs (pairs : List (LValue × LValue)) :
    (LValue.propList (pairs.map Prod.fst) (pairs.map Prod.snd)).WellFormed ↔
      ∀ e ∈ pairs, e.1.WellFormed ∧ e.2.WellFormed := by
  simp only [wellFormed_propList, List.length_map, List.forall_mem_map, true_and]
  constructor
  · exact fun hp e he => ⟨hp.1 e he, hp.2 e he⟩
  · exact fun hp => ⟨fun e he => (hp e he).1, fun e he => (hp e he).2⟩

theorem extractBy_scan_propList {offset : ℕ}
    (h : offset + 2 ≤ b.length → Tracks b rec (offset + 2)) :
    ∃ v n, extractBy (extractFromBytes b) b (blank vtPropList) offset = some (v, n) ∧
      scanBy rec b vtPropList offset = (n, decide v.WellFormed) := by
  by_cases hlen : b.length < offset + 4
  · exact ⟨.propList [] [], 0, by simp [blank, extractBy, hlen], by simp [scanBy, hlen]⟩
  have hword := uintAt_eq_wordAt (b := b) 4 offset (by omega)
  obtain ⟨pairs, final, hloop, hscan⟩ := pairLoop_scan (h (by omega)) (wordAt b 4 offset) 4
  refine ⟨.propList (pairs.map Prod.fst) (pairs.map Prod.snd), final,
    by simp [blank, extractBy, hlen, hword, hloop], ?_⟩
  simp only [scanBy, if_neg hlen, hscan, wellFormed_pairs]

theorem extractBy_scan {offset : ℕ} (h : offset + 2 ≤ b.length → Tracks b rec (offset + 2))
    (code : ℕ) :
    ∃ v n, extractBy (extractFromBytes b) b (blank code) offset = some (v, n) ∧
      scanBy rec b code offset = (n, decide v.WellFormed) := by
  have hleaf : ∀ {v : LValue} {n : ℕ}, NodeOk v → v.children = [] →
      (n, true) = (n, decide v.WellFormed) := by
    intro v n hok hc
    rw [decide_eq_true (wellFormed_of_leaf hok hc)]
  have hfixed : ∀ {code width : ℕ}, (code, width) ∈ [(vtInteger, 4), (vtFloat, 8), (vtColor, 4),
      (vtDate, 8), (vt3dVector, 12), (vt3dTransform, 64)] →
      ∃ v n, extractBy (extractFromBytes b) b (blank code) offset = some (v, n) ∧
        (scanFixed b width offset, true) = (n, decide v.WellFormed) := by
    intro code width hcode
    obtain ⟨v, hv, hok⟩ := extractBy_fixed (b := b) offset hcode
    exact ⟨v, _, hv, by rw [hok]⟩
  unfold scanBy
  split
  case h_2 | h_3 | h_4 =>
    obtain ⟨r, hr, hsize⟩ := countedBytes_scan (b := b) offset
    rw [hsize]
    simp only [blank, extractBy, hr, Option.bind_eq_bind, Option.bind_some]
    cases r <;> exact ⟨_, _, rfl, hleaf trivial rfl⟩
  case h_6 => exact extractBy_scan_list h
  case h_7 =>
    obtain ⟨fs, c, hloop, hlength, hscan⟩ := fieldLoop_scan h 2 0
    obtain ⟨x, y, rfl⟩ := List.length_eq_two.mp hlength
    simp only [List.replicate] at hloop
    exact ⟨.point x y, c.getD 0, by simp [blank, extractBy, hloop], by simp [hscan]⟩
  case h_8 =>
    obtain ⟨fs, c, hloop, hlength, hscan⟩ := fieldLoop_scan h 4 0
    obtain ⟨x, y, z, w, rfl⟩ := List.length_eq_four.mp hlength
    simp only [List.replicate] at hloop
    exact ⟨.rect x y z w, c.getD 0, by simp [blank, extractBy, hloop], by simp [hscan]⟩
  case h_9 => exact extractBy_scan_propList h
  case h_12 => exact ⟨.media [], 0, rfl, hleaf trivial rfl⟩
  case h_15 =>
    have hblank : blank code = .void := by
      unfold blank
      split <;> first | rfl | contradiction
    exact ⟨.void, 0, by rw [hblank]; rfl, hleaf trivial rfl⟩
  all_goals exact hfixed (by simp)

theorem scanFuel_tracks (fuel code offset : ℕ) (hfuel : 1 ≤ fuel)
    (hb : b.length < fuel + offset) :
    ∃ v n, extractFromBytes b (blank code) offset = some (v, n) ∧
      scanFuel b fuel code offset = (n, decide v.WellFormed) := by
  induction fuel generalizing code offset with
  | zero => omega
  | succ fuel ih =>
    rw [extractFromBytes_eq]
    exact extractBy_scan (fun hlen code' o ho => ih code' o (by omega) (by omega)) code

end Tracks

/-- The decoded value is well formed exactly when the buffer is complete at the offset. -/
theorem fromRawBytes_wellFormed_iff {b : List UInt8} {offset : ℕ} {v : LValue}
    (h : fromRawBytes b offset = some v) : v.WellFormed ↔ complete b offset = true := by
  obtain ⟨w, n, hw, -, hscan⟩ := fromRawBytesBy_scan (b := b) offset
    fun code o _ => scanFuel_tracks (b.length + 1) code o (by omega) (by omega)
  unfold fromRawBytes at h
  split_ifs at h
  obtain rfl : w = v := Option.some.inj (hw.symm.trans h)
  simp [complete, hscan]

/-- A well-formed value can be encoded, printed and stored. -/
theorem WellFormed.usable {v : LValue} (h : v.WellFormed) :
    v.getBytes.isSome ∧ v.toString.isSome ∧ v.marshalLValue.isSome :=
  ⟨getBytes_isSome h, toString_isSome h, marshalLValue_isSome (getBytes_isSome h)⟩

/-- Decoding at `offset` returns a value that is well formed at every depth, and
that `GetBytes`, `String` and `MarshalLValue` accept, exactly when the offset
does not overflow and every point and rect that is kept is complete. -/
theorem fromRawBytes_safe_iff (b : List UInt8) (offset : ℕ) :
    (∃ v, fromRawBytes b offset = some v ∧ v.WellFormed ∧
      v.getBytes.isSome ∧ v.toString.isSome ∧ v.marshalLValue.isSome) ↔
    offset + 2 < 2 ^ 63 ∧ complete b offset = true := by
  constructor
  · rintro ⟨v, hv, hwf, -⟩
    refine ⟨?_, (fromRawBytes_wellFormed_iff hv).mp hwf⟩
    by_contra hoffset
    rw [fromRawBytes, if_neg hoffset] at hv
    cases hv
  · rintro ⟨hoffset, hcomplete⟩
    obtain ⟨v, hv, -⟩ := fromRawBytes_total b hoffset
    have hwf := (fromRawBytes_wellFormed_iff hv).mpr hcomplete
    exact ⟨v, hv, hwf, hwf.usable⟩

/-- A bare point header decodes to a point without components. -/
theorem fromRawBytes_point_header :
    fromRawBytes [0, 8] 0 = some (.point .nil .nil) ∧
      ¬ (LValue.point .nil .nil).WellFormed ∧
      (LValue.point .nil .nil).getBytes = none ∧
      (LValue.point .nil .nil).toString = none ∧
      (LValue.point .nil .nil).marshalLValue = none := by
  decide +kernel

end Musgos.Lingo.LValue
