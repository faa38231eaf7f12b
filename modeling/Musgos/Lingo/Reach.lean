import Musgos.Lingo.Safety

/-!
# How far a decoder looks

Decoding tests the length of the buffer before each read. `reach` is the end of the last byte
for which such a test succeeds: type codes, lengths, counts with the room they claim, and bodies.
It is computed from the buffer alone, with the sizes of the scan. A buffer that is cut off
behind it decodes as the whole one does.
-/
namespace Musgos.Lingo.LValue

open Foundation

section Reach

variable (rec : ℕ → ℕ → ℕ) (b : List UInt8)

def reachFixed (width offset : ℕ) : ℕ := if b.length < offset + width then 0 else offset + width

/-- Length-prefixed bytes; the length is looked at also if the bytes are not all there. -/
def reachCounted (offset : ℕ) : ℕ :=
  if b.length < offset + 4 then 0
  else
    let length := wordAt b 4 offset
    if b.length < offset + 4 + length then offset + 4 else offset + 4 + length

def reachChild (offset : ℕ) : ℕ :=
  if b.length < offset + 2 then 0 else max (offset + 2) (rec (wordAt b 2 offset) (offset + 2))

/-- The components of a point or rect. -/
def reachFields (offset : ℕ) : ℕ → ℕ → ℕ
  | _, 0 => 0
  | consumed, k + 1 =>
    if b.length < offset + consumed + 2 then 0
    else
      max (reachChild rec b (offset + consumed))
        (reachFields offset (consumed + (2 + sizeAt b (offset + consumed))) k)

def reachList : ℕ → ℕ → ℕ
  | 0, _ => 0
  | count + 1, current =>
    max (reachChild rec b current) (reachList count (current + (2 + sizeAt b current)))

/-- The pairs of a property list; a property is looked at also if its value is cut off. -/
def reachPairs (offset : ℕ) : ℕ → ℕ → ℕ
  | 0, _ => 0
  | remaining + 1, chunk =>
    if b.length < offset + chunk + 2 then 0
    else
      let next := chunk + 2 + sizeAt b (offset + chunk)
      max (reachChild rec b (offset + chunk))
        (if b.length < offset + next + 2 then 0
        else
          max (reachChild rec b (offset + next))
            (reachPairs offset remaining (next + 2 + sizeAt b (offset + next))))

/-- The reach of the body of a value with the given type code. -/
def reachBy (code offset : ℕ) : ℕ :=
  match code with
  | vtInteger => reachFixed b 4 offset
  | vtSymbol => reachCounted b offset
  | vtString => reachCounted b offset
  | vtPicture => reachCounted b offset
  | vtFloat => reachFixed b 8 offset
  | vtList =>
    if b.length < offset + 4 then 0
    else
      let count := wordAt b 4 offset
      if (b.length - offset - 4) / 2 < count then offset + 4
      else max (offset + 4 + 2 * count) (reachList rec b count (offset + 4))
  | vtPoint => reachFields rec b offset 0 2
  | vtRect => reachFields rec b offset 0 4
  | vtPropList =>
    if b.length < offset + 4 then 0
    else max (offset + 4) (reachPairs rec b offset (wordAt b 4 offset) 4)
  | vtColor => reachFixed b 4 offset
  | vtDate => reachFixed b 8 offset
  | vt3dVector => reachFixed b 12 offset
  | vt3dTransform => reachFixed b 64 offset
  | _ => 0

end Reach

def reachFuel (b : List UInt8) : ℕ → ℕ → ℕ → ℕ
  | 0, _, _ => 0
  | fuel + 1, code, offset => reachBy (reachFuel b fuel) b code offset

/-- How far decoding at `offset` looks. -/
def reach (b : List UInt8) (offset : ℕ) : ℕ := reachChild (reachFuel b (b.length + 1)) b offset

section Cut

variable {rec : ℕ → ℕ → ℕ} {b : List UInt8} {m offset : ℕ}

/-- From `start` on, a value that is looked at up to `m` at most is extracted from the first `m`
bytes as from all. -/
def Settles (rec : ℕ → ℕ → ℕ) (b : List UInt8) (m start : ℕ) : Prop :=
  ∀ code offset, start ≤ offset → rec code offset ≤ m →
    extractFromBytes (b.take m) (blank code) offset = extractFromBytes b (blank code) offset

theorem length_take_lt {n : ℕ} (h : b.length < n) : (b.take m).length < n := by
  rw [List.length_take]
  omega

theorem not_length_take_lt {n : ℕ} (h : ¬ b.length < n) (hm : n ≤ m) :
    ¬ (b.take m).length < n := by
  rw [List.length_take]
  omega

theorem uintAt_take_of_le {width : ℕ} (h : offset + width ≤ m) :
    uintAt width (b.take m) offset = uintAt width b offset := by
  rw [uintAt_take, if_pos h]

theorem slice_take_of_le {n : ℕ} (h : offset + n ≤ m) :
    slice (b.take m) offset n = slice b offset n := by
  rw [slice_take, if_pos h]

theorem readChild_sizeAt (b : List UInt8) (offset : ℕ) :
    ∃ w, readChild b offset = some (w, sizeAt b offset) := by
  obtain ⟨w, n, hchild, hscan⟩ := readChild_scan (b := b) offset
    fun code o _ => scanFuel_tracks (b.length + 1) code o (by omega) (by omega)
  exact ⟨w, by rw [hchild, sizeAt, hscan]⟩

theorem fromRawBytesBy_take (h : Settles rec b m (offset + 2)) (hm : reachChild rec b offset ≤ m) :
    fromRawBytesBy (extractFromBytes (b.take m)) (b.take m) offset =
        fromRawBytesBy (extractFromBytes b) b offset ∧
      readChild (b.take m) offset = readChild b offset := by
  unfold reachChild at hm
  split_ifs at hm with hlen
  · obtain ⟨hfirst, hchild⟩ := readChild_short hlen
    obtain ⟨hfirst', hchild'⟩ := readChild_short (length_take_lt (m := m) hlen)
    exact ⟨hfirst'.trans hfirst.symm, hchild'.trans hchild.symm⟩
  · obtain ⟨hheader, hbody⟩ := max_le_iff.mp hm
    have hword := uintAt_eq_wordAt (b := b) 2 offset (by omega)
    have hword' := (uintAt_take_of_le (b := b) hheader).trans hword
    obtain ⟨⟨v, n⟩, hv, -⟩ :=
      extractFromBytes_total b (blank_ne_nil (wordAt b 2 offset)) (offset + 2)
    have hv' := (h _ _ le_rfl hbody).trans hv
    obtain ⟨hfirst, hchild⟩ := readChild_eq hword (by omega) hv
    obtain ⟨hfirst', hchild'⟩ :=
      readChild_eq hword' (Nat.not_lt.mp (not_length_take_lt hlen hheader)) hv'
    exact ⟨hfirst'.trans hfirst.symm, hchild'.trans hchild.symm⟩

theorem childBy_take (h : Settles rec b m (offset + 2)) (hm : reachChild rec b offset ≤ m) :
    ∃ w, childBy (extractFromBytes b) b offset = some (w, sizeAt b offset) ∧
      childBy (extractFromBytes (b.take m)) (b.take m) offset = some (w, sizeAt b offset) := by
  obtain ⟨w, hw⟩ := readChild_sizeAt b offset
  exact ⟨w, hw, (fromRawBytesBy_take h hm).2.trans hw⟩

theorem fieldLoop_take (h : offset + 2 ≤ b.length → Settles rec b m (offset + 2))
    (olds : List LValue) (consumed : ℕ) (hm : reachFields rec b offset consumed olds.length ≤ m) :
    fieldLoop (extractFromBytes (b.take m)) (b.take m) offset consumed olds =
      fieldLoop (extractFromBytes b) b offset consumed olds := by
  induction olds generalizing consumed with
  | nil => rfl
  | cons old olds ih =>
    rw [List.length_cons, reachFields] at hm
    split_ifs at hm with hlen
    · rw [fieldLoop, fieldLoop, if_pos hlen, if_pos (length_take_lt hlen)]
    · obtain ⟨hchild, hrest⟩ := max_le_iff.mp hm
      have hheader : offset + consumed + 2 ≤ m := by
        rw [reachChild, if_neg hlen] at hchild
        exact (max_le_iff.mp hchild).1
      obtain ⟨w, hw, hw'⟩ := childBy_take
        (fun code o ho => h (by omega) code o (by omega)) hchild
      simp only [fieldLoop, if_neg hlen, if_neg (not_length_take_lt hlen hheader), hw, hw',
        Option.bind_eq_bind, Option.bind_some, ih _ hrest]

theorem listLoop_take {start : ℕ} (h : Settles rec b m (start + 2)) (count current : ℕ)
    (hs : start ≤ current) (hm : reachList rec b count current ≤ m) :
    listLoop (extractFromBytes (b.take m)) (b.take m) count current =
      listLoop (extractFromBytes b) b count current := by
  induction count generalizing current with
  | zero => rfl
  | succ count ih =>
    obtain ⟨hchild, hrest⟩ := max_le_iff.mp hm
    obtain ⟨w, hw, hw'⟩ := childBy_take (fun code o ho => h code o (by omega)) hchild
    simp only [listLoop, hw, hw', Option.bind_eq_bind, Option.bind_some,
      ih _ (by omega) hrest]

theorem pairLoop_take (h : Settles rec b m (offset + 2)) (remaining chunk : ℕ)
    (hm : reachPairs rec b offset remaining chunk ≤ m) :
    pairLoop (extractFromBytes (b.take m)) (b.take m) offset remaining chunk =
      pairLoop (extractFromBytes b) b offset remaining chunk := by
  have hheader : ∀ {o : ℕ}, ¬ b.length < o + 2 → reachChild rec b o ≤ m → o + 2 ≤ m := by
    intro o hlen hchild
    rw [reachChild, if_neg hlen] at hchild
    exact (max_le_iff.mp hchild).1
  induction remaining generalizing chunk with
  | zero => rfl
  | succ remaining ih =>
    rw [reachPairs] at hm
    dsimp only at hm
    split_ifs at hm with hlen hnext
    · rw [pairLoop, pairLoop, if_pos hlen, if_pos (length_take_lt hlen)]
    · obtain ⟨hprop, -⟩ := max_le_iff.mp hm
      obtain ⟨p, hp, hp'⟩ := childBy_take (fun code o ho => h code o (by omega)) hprop
      simp only [pairLoop, if_neg hlen, if_neg (not_length_take_lt hlen (hheader hlen hprop)), hp,
        hp', Option.bind_eq_bind, Option.bind_some, if_pos hnext, if_pos (length_take_lt hnext)]
    · obtain ⟨hprop, hrest⟩ := max_le_iff.mp hm
      obtain ⟨hvalue, hrest⟩ := max_le_iff.mp hrest
      obtain ⟨p, hp, hp'⟩ := childBy_take (fun code o ho => h code o (by omega)) hprop
      obtain ⟨v, hv, hv'⟩ := childBy_take (fun code o ho => h code o (by omega)) hvalue
      simp only [pairLoop, if_neg hlen, if_neg (not_length_take_lt hlen (hheader hlen hprop)), hp,
        hp', Option.bind_eq_bind, Option.bind_some, if_neg hnext,
        if_neg (not_length_take_lt hnext (hheader hnext hvalue)), hv, hv', ih _ hrest]

theorem countedBytes_take (hm : reachCounted b offset ≤ m) :
    countedBytes (b.take m) offset = countedBytes b offset := by
  unfold reachCounted at hm
  dsimp only at hm
  split_ifs at hm with hlen hdata
  · rw [countedBytes, countedBytes, if_pos hlen, if_pos (length_take_lt hlen)]
  · have hword := uintAt_eq_wordAt (b := b) 4 offset (by omega)
    simp only [countedBytes, if_neg hlen, if_neg (not_length_take_lt hlen hm),
      uintAt_take_of_le hm, hword, Option.bind_eq_bind, Option.bind_some, if_pos hdata,
      if_pos (length_take_lt hdata)]
  · have hword := uintAt_eq_wordAt (b := b) 4 offset (by omega)
    have hlength : offset + 4 ≤ m := by omega
    simp only [countedBytes, if_neg hlen, if_neg (not_length_take_lt hlen hlength),
      uintAt_take_of_le hlength, hword, Option.bind_eq_bind, Option.bind_some, if_neg hdata,
      if_neg (not_length_take_lt hdata hm), slice_take_of_le hm]

theorem extractBy_take_fixed {code width : ℕ}
    (hcode : (code, width) ∈ [(vtInteger, 4), (vtFloat, 8), (vtColor, 4), (vtDate, 8),
      (vt3dVector, 12), (vt3dTransform, 64)]) (hm : reachFixed b width offset ≤ m) :
    extractBy (extractFromBytes (b.take m)) (b.take m) (blank code) offset =
      extractBy (extractFromBytes b) b (blank code) offset := by
  unfold reachFixed at hm
  split_ifs at hm with hlen
  · have hlen' := length_take_lt (m := m) hlen
    simp only [List.mem_cons, Prod.mk.injEq, List.not_mem_nil, or_false] at hcode
    rcases hcode with ⟨rfl, rfl⟩ | ⟨rfl, rfl⟩ | ⟨rfl, rfl⟩ | ⟨rfl, rfl⟩ | ⟨rfl, rfl⟩ | ⟨rfl, rfl⟩
    all_goals simp only [blank, extractBy, if_pos hlen, if_pos hlen']
  · have hlen' := not_length_take_lt hlen hm
    have hbyte : ∀ i, i < m → (b.take m)[i]? = b[i]? := fun i hi => List.getElem?_take_of_lt hi
    have hword : ∀ {w o}, o + w ≤ m → uintAt w (b.take m) o = uintAt w b o := uintAt_take_of_le
    simp only [List.mem_cons, Prod.mk.injEq, List.not_mem_nil, or_false] at hcode
    rcases hcode with ⟨rfl, rfl⟩ | ⟨rfl, rfl⟩ | ⟨rfl, rfl⟩ | ⟨rfl, rfl⟩ | ⟨rfl, rfl⟩ | ⟨rfl, rfl⟩
    · simp only [blank, extractBy, if_neg hlen, if_neg hlen', hword hm]
    · simp only [blank, extractBy, if_neg hlen, if_neg hlen', hword hm]
    · simp only [blank, extractBy, if_neg hlen, if_neg hlen', hbyte offset (by omega),
        hbyte (offset + 1) (by omega), hbyte (offset + 2) (by omega)]
    · simp only [blank, extractBy, if_neg hlen, if_neg hlen', slice_take_of_le hm]
    · simp only [blank, extractBy, if_neg hlen, if_neg hlen', hword (w := 4) (o := offset)
        (by omega), hword (w := 4) (o := offset + 4) (by omega),
        hword (w := 4) (o := offset + 8) (by omega)]
    · have hcells : ∀ is : List ℕ, (∀ i ∈ is, i < 16) →
          is.mapM (fun i => uintAt 4 (b.take m) (offset + i * 4)) =
            is.mapM (fun i => uintAt 4 b (offset + i * 4)) := by
        intro is his
        induction is with
        | nil => rfl
        | cons i is ih =>
          obtain ⟨hi, his⟩ := List.forall_mem_cons.mp his
          rw [List.mapM_cons, List.mapM_cons, hword (by omega), ih his]
      simp only [blank, extractBy, if_neg hlen, if_neg hlen',
        hcells _ fun i hi => List.mem_range.mp hi]

theorem extractBy_take_list (h : offset + 2 ≤ b.length → Settles rec b m (offset + 2))
    (hm : reachBy rec b vtList offset ≤ m) :
    extractBy (extractFromBytes (b.take m)) (b.take m) (blank vtList) offset =
      extractBy (extractFromBytes b) b (blank vtList) offset := by
  simp only [reachBy] at hm
  simp only [blank, extractBy]
  split_ifs at hm with hlen hroom
  · rw [if_pos hlen, if_pos (length_take_lt hlen)]
  · have hword := uintAt_eq_wordAt (b := b) 4 offset (by omega)
    have hroom' : ((b.take m).length - offset - 4) / 2 < wordAt b 4 offset := by
      rw [List.length_take]
      omega
    simp only [if_neg hlen, if_neg (not_length_take_lt hlen hm), uintAt_take_of_le hm, hword,
      Option.bind_eq_bind, Option.bind_some, if_pos hroom, if_pos hroom']
  · obtain ⟨hspace, hloop⟩ := max_le_iff.mp hm
    have hword := uintAt_eq_wordAt (b := b) 4 offset (by omega)
    have hcount : offset + 4 ≤ m := by omega
    have hroom' : ¬ ((b.take m).length - offset - 4) / 2 < wordAt b 4 offset := by
      rw [List.length_take]
      omega
    simp only [if_neg hlen, if_neg (not_length_take_lt hlen hcount), uintAt_take_of_le hcount,
      hword, Option.bind_eq_bind, Option.bind_some, if_neg hroom, if_neg hroom',
      listLoop_take (h (by omega)) _ _ (by omega) hloop]

theorem extractBy_take_propList (h : offset + 2 ≤ b.length → Settles rec b m (offset + 2))
    (hm : reachBy rec b vtPropList offset ≤ m) :
    extractBy (extractFromBytes (b.take m)) (b.take m) (blank vtPropList) offset =
      extractBy (extractFromBytes b) b (blank vtPropList) offset := by
  simp only [reachBy] at hm
  simp only [blank, extractBy]
  split_ifs at hm with hlen
  · rw [if_pos hlen, if_pos (length_take_lt hlen)]
  · obtain ⟨hcount, hloop⟩ := max_le_iff.mp hm
    have hword := uintAt_eq_wordAt (b := b) 4 offset (by omega)
    simp only [if_neg hlen, if_neg (not_length_take_lt hlen hcount), uintAt_take_of_le hcount,
      hword, Option.bind_eq_bind, Option.bind_some, pairLoop_take (h (by omega)) _ _ hloop]

theorem extractBy_take (h : offset + 2 ≤ b.length → Settles rec b m (offset + 2)) (code : ℕ)
    (hm : reachBy rec b code offset ≤ m) :
    extractBy (extractFromBytes (b.take m)) (b.take m) (blank code) offset =
      extractBy (extractFromBytes b) b (blank code) offset := by
  unfold reachBy at hm
  split at hm
  case h_2 | h_3 | h_4 => simp only [blank, extractBy, countedBytes_take hm]
  case h_6 => exact extractBy_take_list h hm
  case h_7 => simp only [blank, extractBy, fieldLoop_take h [.nil, .nil] 0 hm]
  case h_8 => simp only [blank, extractBy, fieldLoop_take h [.nil, .nil, .nil, .nil] 0 hm]
  case h_9 => exact extractBy_take_propList h hm
  case h_14 =>
    unfold blank
    split <;> first | rfl | contradiction
  all_goals exact extractBy_take_fixed (by simp) hm

theorem reachFuel_settles (fuel code offset : ℕ) (hfuel : 1 ≤ fuel)
    (hb : b.length < fuel + offset) (hm : reachFuel b fuel code offset ≤ m) :
    extractFromBytes (b.take m) (blank code) offset = extractFromBytes b (blank code) offset := by
  induction fuel generalizing code offset with
  | zero => omega
  | succ fuel ih =>
    rw [extractFromBytes_eq, extractFromBytes_eq]
    exact extractBy_take (fun hlen code' o ho => ih code' o (by omega) (by omega)) code hm

/-- What is behind the reach of a decoder does not matter to it. -/
theorem fromRawBytes_take (hm : reach b offset ≤ m) :
    fromRawBytes (b.take m) offset = fromRawBytes b offset := by
  have hsettles : Settles (reachFuel b (b.length + 1)) b m (offset + 2) := fun code o _ =>
    reachFuel_settles (b.length + 1) code o (by omega) (by omega)
  unfold fromRawBytes
  rw [(fromRawBytesBy_take hsettles hm).1]

end Cut

end Musgos.Lingo.LValue
