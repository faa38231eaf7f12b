import Musgos.Lingo.Storage
import Musgos.Lingo.Lua

/-!
# Binary payloads in every channel

Pictures and media travel over the wire, into storage and through scripts, alone
or inside a list. A picture writes its bytes behind a length; a media value
inherits the `GetBytes` of `BaseLValue` and writes nothing, so the wire and the
storage codec lose it together with the place of every element after it.
-/
namespace Musgos.Lingo.LValue

open Foundation

/-- The two kinds of value that are bytes only. -/
inductive BinaryType where
  | picture
  | media
  deriving DecidableEq

def BinaryType.value : BinaryType → List UInt8 → LValue
  | .picture, d => .picture d
  | .media, d => .media d

/-- Where a value stands: alone, or in a list between others. -/
inductive Placement where
  | alone
  | listed (before after : List LValue)

def Placement.place : Placement → LValue → LValue
  | .alone, v => v
  | .listed before after, v => .list (before ++ v :: after)

/-- Integers and strings. -/
def IsPlain : LValue → Prop
  | .integer _ | .string _ => True
  | _ => False

/-- The other elements of the list are integers and strings. -/
def Placement.Plain : Placement → Prop
  | .alone => True
  | .listed before after => ∀ e ∈ before ++ after, e.IsPlain

/-- Every channel returns the value unchanged. -/
structure SurvivesAll (v : LValue) : Prop where
  wire : v.WireStable
  storage : v.StorageStable
  lua : ∃ l, lValueToLua v = some l ∧ luaToLValue l = v

/-- The length or count of an object fits the 32 bits it has on the wire. -/
def Fits : LValue → Prop
  | .symbol s | .string s => s.length < 2 ^ 32
  | .picture d | .media d => d.length < 2 ^ 32
  | .list vs => vs.length < 2 ^ 32
  | _ => True

section Decoded

variable {ext : LValue → ℕ → Option (LValue × ℕ)} {b : List UInt8}

theorem countedBytes_fits {offset : ℕ} {d : List UInt8}
    (h : countedBytes b offset = some (some d)) :
    d.length < 2 ^ 32 := by
  unfold countedBytes at h
  split_ifs at h with hlen
  · cases h
  · obtain ⟨n, hn, hlt⟩ := exists_uintAt 4 b offset (by omega)
    simp only [hn, Option.bind_eq_bind, Option.bind_some] at h
    split_ifs at h with hdata
    · cases h
    · rw [slice_eq_some (by omega)] at h
      simp only [Option.bind_some, Option.pure_def, Option.some.injEq] at h
      rw [← h, List.length_take]
      omega

theorem length_listLoop {count current stop : ℕ} {vs : List LValue}
    (h : listLoop ext b count current = some (vs, stop)) : vs.length = count := by
  induction count generalizing current vs stop with
  | zero =>
    cases h
    rfl
  | succ count ih =>
    simp only [listLoop, Option.bind_eq_bind, Option.bind_eq_some_iff, Option.pure_def,
      Option.some.injEq, Prod.mk.injEq] at h
    obtain ⟨r, -, rest, hrest, rfl, rfl⟩ := h
    simp [ih hrest]

/-- Extraction keeps lengths within the bounds of their fields. -/
theorem extractBy_fits {obj v : LValue} {offset n : ℕ} (hobj : obj.Fits)
    (h : extractBy ext b obj offset = some (v, n)) : v.Fits := by
  cases obj <;> simp only [extractBy] at h
  case nil => cases h
  case void | media => cases h; exact hobj
  case symbol | string | picture =>
    obtain ⟨_ | d, hd⟩ := countedBytes_total (b := b) offset <;> rw [hd] at h <;> cases h
    · exact hobj
    · exact countedBytes_fits hd
  case list vs =>
    split_ifs at h with hlen
    · cases h
      exact hobj
    · obtain ⟨count, hcount, hlt⟩ := exists_uintAt 4 b offset (by omega)
      simp only [hcount, Option.bind_eq_bind, Option.bind_some] at h
      split_ifs at h with hmax
      · cases h
        exact hobj
      · simp only [Option.bind_eq_some_iff, Option.pure_def, Option.some.injEq,
          Prod.mk.injEq] at h
        obtain ⟨r, hr, rfl, rfl⟩ := h
        have hlength := length_listLoop hr
        simp only [Fits]
        omega
  case point | rect =>
    simp only [Option.bind_eq_bind, Option.bind_eq_some_iff] at h
    obtain ⟨r, -, h⟩ := h
    split at h <;> cases h
    trivial
  all_goals
    split_ifs at h
    · cases h
      trivial
    · cases v <;> first | trivial | simp [Option.bind_eq_some_iff] at h

theorem blank_fits (code : ℕ) : (blank code).Fits := by
  unfold blank
  split <;> simp [Fits]

theorem fromRawBytesBy_fits {offset : ℕ} {v : LValue}
    (h : fromRawBytesBy (extractFromBytes b) b offset = some v) : v.Fits := by
  unfold fromRawBytesBy at h
  split_ifs at h with hlen
  · cases h
    trivial
  · simp only [Option.bind_eq_bind, Option.bind_eq_some_iff, Option.pure_def,
      Option.some.injEq] at h
    obtain ⟨code, -, ⟨w, n⟩, hext, rfl⟩ := h
    rw [extractFromBytes_eq] at hext
    exact extractBy_fits (blank_fits code) hext

theorem listLoop_fits {count current stop : ℕ} {vs : List LValue}
    (h : listLoop (extractFromBytes b) b count current = some (vs, stop)) : ∀ v ∈ vs, v.Fits := by
  induction count generalizing current vs stop with
  | zero =>
    cases h
    simp
  | succ count ih =>
    simp only [listLoop, childBy, Option.bind_eq_bind, Option.bind_eq_some_iff, Option.pure_def,
      Option.some.injEq, Prod.mk.injEq] at h
    obtain ⟨⟨w, n⟩, ⟨elem, helem, hext⟩, rest, hrest, rfl, rfl⟩ := h
    rw [extractFromBytes_eq] at hext
    have hw := extractBy_fits (fromRawBytesBy_fits helem) hext
    simpa using ⟨hw, ih hrest⟩

/-- What the wire form of a list that comes back has to be: its count fits, and the
loop over the elements finds them all. -/
theorem WireStable.list_loop {vs : List LValue} (hne : vs ≠ []) (h : (list vs).WireStable) :
    vs.length < 2 ^ 32 ∧ ∃ body, concatBytes (vs.map getBytes) = some body ∧
      ∃ b stop, StandsAt b 6 body ∧ b.length = 6 + body.length ∧
        listLoop (extractFromBytes b) b vs.length 6 = some (vs, stop) := by
  obtain ⟨b, hb, hback⟩ := h
  rw [fromRawBytes, if_pos (by norm_num)] at hback
  have hfits : vs.length < 2 ^ 32 := fromRawBytesBy_fits hback
  simp only [getBytes, getBytesEach_eq_map, Option.bind_eq_bind, Option.bind_eq_some_iff,
    Option.pure_def, Option.some.injEq] at hb
  obtain ⟨body, hbody, hb⟩ := hb
  have hat : StandsAt b 0 (header vtList ++ (beBytes 4 vs.length ++ body)) := hb ▸ standsAt_whole b
  have hcode : uintAt 2 b 0 = some vtList := hat.left.uintAt_eq (by norm_num)
  have hcount : uintAt 4 b 2 = some vs.length := hat.right.left.uintAt_eq (by simpa using hfits)
  have hlength : b.length = 6 + body.length := by
    rw [← hb]
    simp [header]
    omega
  simp only [fromRawBytesBy, hcode, extractFromBytes_eq, blank, extractBy, hcount,
    Option.bind_eq_bind, Option.bind_some, Option.pure_def] at hback
  rw [if_neg (by omega), if_neg (by omega)] at hback
  split_ifs at hback with hmax
  · simp only [Option.bind_some, Option.some.injEq, list.injEq] at hback
    exact absurd hback.symm hne
  · simp only [Option.bind_eq_some_iff, Option.some.injEq] at hback
    obtain ⟨-, ⟨⟨us, stop⟩, hloop, rfl⟩, hus⟩ := hback
    obtain rfl := LValue.list.inj hus
    exact ⟨hfits, body, hbody, b, stop, hat.right.right, hlength, hloop⟩

/-- The loop over the elements, split after the first ones. -/
theorem listLoop_add (m n current : ℕ) :
    listLoop ext b (m + n) current = (do
      let r ← listLoop ext b m current
      let rest ← listLoop ext b n r.2
      return (r.1 ++ rest.1, rest.2)) := by
  induction m generalizing current with
  | zero => simp [listLoop]
  | succ m ih =>
    rw [Nat.succ_add, listLoop, listLoop]
    cases childBy ext b current with
    | none => rfl
    | some r =>
      simp only [Option.bind_eq_bind, Option.bind_some, ih]
      cases listLoop ext b m (current + (2 + r.2)) with
      | none => rfl
      | some first =>
        simp only [Option.bind_some, Option.pure_def]
        cases listLoop ext b n first.2 <;> rfl

end Decoded

section Plain

theorem IsPlain.decoded_again {e : LValue} (h : e.IsPlain) : e.decoded.again = e := by
  cases e <;> first | rfl | exact h.elim

theorem IsPlain.readsBack {e : LValue} (h : e.IsPlain) (hfits : e.Fits) :
    ReadsBack e e.decoded := by
  cases e
  case integer n => exact readsBack_integer n
  case string s => exact readsBack_string hfits
  all_goals exact h.elim

theorem IsPlain.luaStable {e : LValue} (h : e.IsPlain) : e.LuaStable := by
  cases e
  case integer n => exact luaStable_integer n
  case string s => exact luaStable_string s
  all_goals exact h.elim

/-- At the place of a value that writes nothing the decoder finds the next element,
or nothing when that was the last. -/
theorem readChild_next {after : List LValue} {b body : List UInt8} {offset : ℕ}
    (hplain : ∀ e ∈ after, e.IsPlain) (hfits : ∀ e ∈ after, e.Fits)
    (hbody : concatBytes (after.map getBytes) = some body) (hat : StandsAt b offset body)
    (hend : b.length = offset + body.length) :
    ∃ e n, readChild b offset = some (e, n) ∧ (e = .void ∨ e.IsPlain) := by
  cases after with
  | nil =>
    obtain rfl : [] = body := Option.some.inj hbody
    exact ⟨.void, 0, (readChild_short (by simp at hend; omega)).2, .inl rfl⟩
  | cons e after =>
    have he := hplain e List.mem_cons_self
    obtain ⟨enc, henc, -, hread⟩ := (he.readsBack (hfits e List.mem_cons_self)).child
    simp only [List.map_cons, concatBytes, henc, Option.bind_eq_bind, Option.bind_some,
      Option.bind_eq_some_iff, Option.pure_def, Option.some.injEq] at hbody
    obtain ⟨rest, -, rfl⟩ := hbody
    refine ⟨e, enc.length - 2, ?_, .inr he⟩
    rw [(hread b offset hat.left).2, he.decoded_again]

/-- A media value writes nothing, so a list that holds one does not come back. -/
theorem not_wireStable_media {before after : List LValue} {d : List UInt8}
    (hplain : ∀ e ∈ before ++ after, e.IsPlain) :
    ¬ (list (before ++ .media d :: after)).WireStable := by
  intro h
  obtain ⟨-, body, hbody, b, stop, hat, hlength, hloop⟩ := h.list_loop (by simp)
  have hfits := listLoop_fits hloop
  have hbacks : ∀ e ∈ before, ReadsBack e e.decoded := fun e he =>
    (hplain e (List.mem_append_left after he)).readsBack (hfits e (by simp [he]))
  obtain ⟨first, hfirst, -, hloopFirst⟩ := listLoop_encoded hbacks
  have hbefore : before.map (fun e => e.decoded.again) = before :=
    map_eq_self_iff.mpr fun e he => (hplain e (List.mem_append_left after he)).decoded_again
  rw [List.map_append, concatBytes_append, hfirst] at hbody
  simp only [List.map_cons, concatBytes, getBytes, Option.bind_eq_bind, Option.bind_some,
    Option.bind_eq_some_iff, Option.pure_def, Option.some.injEq] at hbody
  obtain ⟨-, ⟨second, hsecond, rfl⟩, rfl⟩ := hbody
  simp only [List.nil_append] at hat hlength
  obtain ⟨e, n, hnext, hkind⟩ := readChild_next
    (fun e he => hplain e (List.mem_append_right before he)) (fun e he => hfits e (by simp [he]))
    hsecond hat.right (by rw [hlength, List.length_append]; omega)
  rw [List.length_append, List.length_cons, listLoop_add, hloopFirst b 6 hat.left, hbefore] at hloop
  unfold readChild at hnext
  simp only [Option.bind_eq_bind, Option.bind_some, listLoop, hnext, Option.bind_eq_some_iff,
    Option.pure_def, Option.some.injEq, Prod.mk.injEq] at hloop
  obtain ⟨-, ⟨rest, -, rfl⟩, hvalues, -⟩ := hloop
  obtain ⟨rfl, -⟩ := List.cons.inj (List.append_cancel_left hvalues)
  rcases hkind with hvoid | hplain'
  · cases hvoid
  · exact hplain'

theorem ReadsBack.wireStable {v : LValue} (h : ReadsBack v v.decoded) (hv : v.decoded = v) :
    v.WireStable := by
  obtain ⟨b, hb, -, hread⟩ := h.child
  refine ⟨b, hb, ?_⟩
  rw [fromRawBytes, if_pos (by norm_num), (hread b 0 (standsAt_whole b)).1, hv]

end Plain

section Survival

theorem picture_survivesAll {d : List UInt8} (hd : d.length < 2 ^ 32) :
    (picture d).SurvivesAll := by
  have hwire : (picture d).WireStable := (readsBack_picture hd).wireStable rfl
  obtain ⟨l, hl, -, hback⟩ := luaStable_picture d
  exact ⟨hwire, storageStable_of_storeBytes hwire rfl fun _ => rfl, l, hl, hback⟩

theorem list_survivesAll {vs : List LValue} (hne : vs ≠ []) (hcount : vs.length < 2 ^ 32)
    (hreads : ∀ v ∈ vs, ReadsBack v v.decoded) (hdecoded : ∀ v ∈ vs, v.decoded.again = v)
    (hlua : ∀ v ∈ vs, v.LuaStable) : (list vs).SurvivesAll := by
  have hwire : (list vs).WireStable :=
    (readsBack_list hreads hcount).wireStable ((decoded_eq_iff_children _).mpr hdecoded)
  obtain ⟨l, hl, -, hback⟩ := luaStable_list hne hlua
  exact ⟨hwire, storageStable_of_storeBytes hwire rfl fun _ => rfl, l, hl, hback⟩

theorem IsPlain.children_eq {e : LValue} (h : e.IsPlain) : e.children = [] := by
  cases e <;> first | rfl | exact h.elim

theorem everywhere_leaf_iff {P : LValue → Prop} {v : LValue} (h : v.children = []) :
    Everywhere P v ↔ P v := by
  rw [everywhere_iff, h]
  simp

theorem not_wireStable_media_alone (d : List UInt8) : ¬ (media d).WireStable := by
  rintro ⟨b, hb, hback⟩
  obtain rfl : [] = b := by simpa [getBytes] using hb
  simp [fromRawBytes, fromRawBytesBy] at hback

theorem picture_alone_iff (d : List UInt8) : (picture d).SurvivesAll ↔ (picture d).Fits := by
  constructor
  · intro h
    obtain ⟨b, -, hback⟩ := h.wire
    rw [fromRawBytes, if_pos (by norm_num)] at hback
    exact fromRawBytesBy_fits hback
  · exact picture_survivesAll

theorem picture_listed_iff {before after : List LValue} (d : List UInt8)
    (hplain : ∀ e ∈ before ++ after, e.IsPlain) :
    (list (before ++ .picture d :: after)).SurvivesAll ↔
      Everywhere Fits (list (before ++ .picture d :: after)) := by
  have hkinds : ∀ e ∈ before ++ .picture d :: after, e.IsPlain ∨ e = .picture d := by
    intro e he
    simp only [List.mem_append, List.mem_cons] at he hplain
    rcases he with he | rfl | he
    · exact .inl (hplain e (.inl he))
    · exact .inr rfl
    · exact .inl (hplain e (.inr he))
  have hleaf : ∀ e ∈ before ++ .picture d :: after, e.children = [] := by
    intro e he
    rcases hkinds e he with hplain' | rfl
    · exact hplain'.children_eq
    · rfl
  rw [everywhere_iff]
  constructor
  · intro h
    obtain ⟨hcount, -, -, b, stop, -, -, hloop⟩ := h.wire.list_loop (by simp)
    refine ⟨hcount, fun e he => ?_⟩
    exact (everywhere_leaf_iff (hleaf e he)).mpr (listLoop_fits hloop e he)
  · rintro ⟨hcount, hfits⟩
    replace hfits := fun e he => (everywhere_leaf_iff (hleaf e he)).mp (hfits e he)
    apply list_survivesAll (by simp) hcount
    · intro e he
      rcases hkinds e he with hplain' | rfl
      · exact hplain'.readsBack (hfits e he)
      · exact readsBack_picture (hfits _ he)
    · intro e he
      rcases hkinds e he with hplain' | rfl
      · exact hplain'.decoded_again
      · rfl
    · intro e he
      rcases hkinds e he with hplain' | rfl
      · exact hplain'.luaStable
      · exact luaStable_picture d

/-- A picture survives every channel, alone and at every place of a list, as long as
every length and count fits its field on the wire. A media value never does. -/
theorem binary_survivesAll_iff (kind : BinaryType) (d : List UInt8) {p : Placement}
    (hp : p.Plain) :
    (p.place (kind.value d)).SurvivesAll ↔
      kind = .picture ∧ Everywhere Fits (p.place (kind.value d)) := by
  cases kind with
  | media =>
    apply iff_of_false
    · intro h
      cases p with
      | alone => exact not_wireStable_media_alone d h.wire
      | listed before after => exact not_wireStable_media hp h.wire
    · simp
  | picture =>
    rw [eq_self, true_and]
    cases p with
    | alone => exact (picture_alone_iff d).trans (everywhere_leaf_iff rfl).symm
    | listed before after => exact picture_listed_iff d hp

/-- A picture between a string and an integer. -/
theorem binary_survivesAll_iff_picture :
    ((Placement.listed [.string [1]] [.integer 7]).place
        (BinaryType.picture.value [0, 255])).SurvivesAll ↔
      BinaryType.picture = .picture ∧ Everywhere Fits
        ((Placement.listed [.string [1]] [.integer 7]).place (BinaryType.picture.value [0, 255])) :=
  binary_survivesAll_iff .picture [0, 255] (by simp [Placement.Plain, IsPlain])

/-- One media value in front of an integer: what comes back is the integer and a void. -/
theorem media_lost_on_the_wire :
    (Placement.listed [] [.integer 7]).Plain ∧
      ¬ ((Placement.listed [] [.integer 7]).place (BinaryType.media.value [1, 2])).SurvivesAll ∧
      ((Placement.listed [] [.integer 7]).place (BinaryType.media.value [1, 2])).getBytes.bind
        (fromRawBytes · 0) = some (.list [.integer 7, .void]) := by
  have hback : ((Placement.listed [] [.integer 7]).place
      (BinaryType.media.value [1, 2])).getBytes.bind
      (fromRawBytes · 0) = some (.list [.integer 7, .void]) := by decide +kernel
  refine ⟨by simp [Placement.Plain, IsPlain], ?_, hback⟩
  intro h
  obtain ⟨b, hb, hstable⟩ := h.wire
  rw [hb, Option.bind_some, hstable] at hback
  simp [Placement.place, BinaryType.value] at hback

end Survival

end Musgos.Lingo.LValue
