import Mathlib.Data.List.TakeWhile
import Pseudocode.Proofs.Decimal
import Pseudocode.Service.Server

/-!
# What a router promises

Which route a request takes is decided by a router that is not written here.  What is assumed of it
is that a request only takes a route of its method, and that a path of plain characters that fits
one pattern leads there.  So the address of an entry of the history, which is made of a fixed front
and of the number of the entry, leads back to that number.

* `Router.Documented` : the promises.
* `Path.routed_eq_self` : a path of plain bytes is routed as it is written.
* `Router.bySegments_documented` : **comparing paths segment by segment keeps the promises.**
* `Router.Documented.entry` : **the address of an entry leads to its number.**
-/

namespace Pseudocode

/-! ### ASCII texts -/

namespace Text

/-- All characters of the text are ASCII. -/
def IsAscii (s : List Char) : Prop := ∀ c ∈ s, c.toNat < 128

theorem encode_append (s t : List Char) : encode (s ++ t) = encode s ++ encode t :=
  List.flatMap_append

theorem utf8EncodeChar_of_ascii {c : Char} (h : c.toNat < 128) :
    String.utf8EncodeChar c = [asciiByte c] := by
  have hle : c.val.toNat ≤ 0x7f := Nat.le_of_lt_succ h
  simp only [String.utf8EncodeChar, hle, if_true]
  rfl

theorem encode_of_isAscii {s : List Char} (h : IsAscii s) : encode s = s.map asciiByte := by
  induction s with
  | nil => rfl
  | cons c cs ih =>
    obtain ⟨hc, hcs⟩ := List.forall_mem_cons.1 h
    rw [encode, List.flatMap_cons, utf8EncodeChar_of_ascii hc, ← encode, ih hcs]
    rfl

theorem toNat_asciiByte {c : Char} (h : c.toNat < 128) : (asciiByte c).toNat = c.toNat := by
  rw [asciiByte, UInt8.toNat_ofNat']
  omega

theorem decode_map_asciiByte {s : List Char} (h : IsAscii s) :
    decode (s.map asciiByte) = glyphs s := by
  induction s with
  | nil => rfl
  | cons c cs ih =>
    obtain ⟨hc, hcs⟩ := List.forall_mem_cons.1 h
    have hchar : charAt? (asciiByte c) (cs.map asciiByte) = some (c, 0) := by
      simp only [charAt?, toNat_asciiByte hc, hc, if_true, Char.ofNat_toNat]
    rw [List.map_cons, decode, decodeFrom, hchar]
    exact congrArg (Glyph.char c :: ·) (ih hcs)

theorem lossy_decode_encode {s : List Char} (h : IsAscii s) : lossy (decode (encode s)) = s := by
  rw [encode_of_isAscii h, decode_map_asciiByte h, lossy, glyphs, List.map_map]
  exact List.map_id s

end Text

/-! ### Paths -/

theorem cutAt_of_notMem {b : UInt8} {bytes : List UInt8} (h : b ∉ bytes) :
    cutAt b bytes = (bytes, []) := by
  have hne : ∀ c ∈ bytes, (c != b) = true := fun c hc => by
    rw [bne_iff_ne]
    rintro rfl
    exact h hc
  rw [cutAt, List.takeWhile_eq_self_iff.2 hne, List.dropWhile_eq_nil_iff.2 hne]
  rfl

theorem percentDecode?_of_notMem {bytes : List UInt8} (h : asciiByte '%' ∉ bytes) :
    percentDecode? false bytes = some bytes := by
  induction bytes with
  | nil => rfl
  | cons b bytes ih =>
    obtain ⟨hb, hbytes⟩ := not_or.1 (mt List.mem_cons.2 h)
    rw [percentDecode?.eq_def]
    simp only [if_neg (Ne.symm hb), ih hbytes]
    rfl

namespace Path

theorem isPlain_asciiByte {c : Char} (hc : c.toNat < 128)
    (h : c.isAlphanum = true ∨ c ∈ "-_.~$&+,/:;=@".toList) : isPlain (asciiByte c) = true := by
  simp only [isPlain, Text.toNat_asciiByte hc, hc, Char.ofNat_toNat, decide_true, Bool.true_and,
    Bool.or_eq_true, decide_eq_true_eq]
  exact h

/-- The bytes of a text that is known can be looked through one by one. -/
theorem isPlain_of_all {part : List UInt8}
    (h : part.all (fun b => isPlain b && b != asciiByte '/') = true) :
    ∀ b ∈ part, isPlain b = true ∧ b ≠ asciiByte '/' := by
  intro b hb
  have hall := List.all_eq_true.1 h b hb
  exact ⟨(Bool.and_eq_true_iff.1 hall).1, bne_iff_ne.1 (Bool.and_eq_true_iff.1 hall).2⟩

/-- The characters of integers stand in a path as they are, and are no slashes. -/
theorem isPlain_of_integer {c : Char} (h : c = '-' ∨ c.isDigit = true) :
    c.toNat < 128 ∧ isPlain (asciiByte c) = true ∧ asciiByte c ≠ asciiByte '/' := by
  obtain rfl | hdigit := h
  · decide
  · have hrange : 48 ≤ c.toNat ∧ c.toNat ≤ 57 := Char.isDigit_iff_toNat.1 hdigit
    have hascii : c.toNat < 128 := by omega
    refine ⟨hascii, isPlain_asciiByte hascii (.inl (by simp [Char.isAlphanum, hdigit])), ?_⟩
    intro hslash
    have hcode := congrArg UInt8.toNat hslash
    rw [Text.toNat_asciiByte hascii, Text.toNat_asciiByte (by decide)] at hcode
    have h47 : '/'.toNat = 47 := rfl
    omega

theorem encode_eq_self {path : List UInt8} (h : ∀ b ∈ path, isPlain b = true) :
    encode path = path := by
  induction path with
  | nil => rfl
  | cons b path ih =>
    obtain ⟨hb, hpath⟩ := List.forall_mem_cons.1 h
    rw [encode, List.flatMap_cons, if_pos hb, ← encode, ih hpath]
    rfl

/-- A path of plain bytes is routed as it is written. -/
theorem routed_eq_self {path : List UInt8} (h : ∀ b ∈ path, isPlain b = true) :
    routed path = path := by
  have hpercent : asciiByte '%' ∉ path := fun hmem => absurd (h _ hmem) (by decide)
  rw [routed, percentDecode?_of_notMem hpercent]
  exact if_pos (encode_eq_self h)

end Path

namespace Query

theorem splitOn_of_notMem {sep : UInt8} {bytes : List UInt8} (h : sep ∉ bytes) :
    splitOn sep bytes = [bytes] := by
  induction bytes with
  | nil => rfl
  | cons b bytes ih =>
    obtain ⟨hb, hbytes⟩ := not_or.1 (mt List.mem_cons.2 h)
    rw [splitOn, if_neg (Ne.symm hb), ih hbytes]

theorem splitOn_append {sep : UInt8} {front : List UInt8} (h : sep ∉ front) (rest : List UInt8) :
    splitOn sep (front ++ sep :: rest) = front :: splitOn sep rest := by
  induction front with
  | nil => rw [List.nil_append, splitOn, if_pos rfl]
  | cons b front ih =>
    obtain ⟨hb, hfront⟩ := not_or.1 (mt List.mem_cons.2 h)
    rw [List.cons_append, splitOn, if_neg (Ne.symm hb), ih hfront]

end Query

/-- The bytes of an integer are not empty, stand in a path as they are, and hold no slash. -/
theorem Text.encode_toString (k : Int) :
    Text.encode (toString k).toList ≠ [] ∧
      (∀ b ∈ Text.encode (toString k).toList, Path.isPlain b = true) ∧
      asciiByte '/' ∉ Text.encode (toString k).toList := by
  have hchar : ∀ c ∈ (toString k).toList, c.toNat < 128 ∧ Path.isPlain (asciiByte c) = true ∧
      asciiByte c ≠ asciiByte '/' := fun c hc =>
    Path.isPlain_of_integer (Text.isDigit_of_mem_toString c hc)
  rw [Text.encode_of_isAscii fun c hc => (hchar c hc).1]
  refine ⟨fun h => Text.toString_ne_nil k (List.map_eq_nil_iff.1 h), fun b hb => ?_,
    fun hmem => ?_⟩
  · obtain ⟨c, hc, rfl⟩ := List.mem_map.1 hb
    exact (hchar c hc).2.1
  · obtain ⟨c, hc, heq⟩ := List.mem_map.1 hmem
    exact (hchar c hc).2.2 heq

/-! ### Routers -/

/-- The path whose parts are the given ones. -/
def Path.ofParts (parts : List (List UInt8)) : List UInt8 := parts.flatMap (asciiByte '/' :: ·)

/-- The promises of a router that knows the given routes. -/
structure Router.Documented (router : Router) (routes : List Route) : Prop where
  /-- A request only takes a route of its method. -/
  method : ∀ {method path endpoint parameters},
    router routes method path = .handler endpoint parameters →
    ∃ r ∈ routes, r.method = method ∧ r.endpoint = endpoint
  /-- A path of plain characters leads to the route that it fits, if there is only one of its
  method, and to the parameters in it. -/
  handler : ∀ {r parts parameters}, r ∈ routes →
    (∀ part ∈ parts, ∀ b ∈ part, Path.isPlain b = true ∧ b ≠ asciiByte '/') →
    Route.Segment.parameters? r.pattern parts = some parameters →
    (∀ r' ∈ routes, r'.method = r.method →
      (Route.Segment.parameters? r'.pattern parts).isSome = true → r' = r) →
    router routes r.method (Path.ofParts parts) = .handler r.endpoint parameters

namespace Path

variable {parts : List (List UInt8)}

theorem isPlain_ofParts (h : ∀ part ∈ parts, ∀ b ∈ part, isPlain b = true) :
    ∀ b ∈ ofParts parts, isPlain b = true := by
  intro b hb
  obtain ⟨part, hpart, hmem⟩ := List.mem_flatMap.1 hb
  obtain rfl | hmem := List.mem_cons.1 hmem
  · decide
  · exact h part hpart b hmem

theorem splitOn_append_ofParts {part : List UInt8} (hpart : asciiByte '/' ∉ part)
    (h : ∀ part ∈ parts, asciiByte '/' ∉ part) :
    Query.splitOn (asciiByte '/') (part ++ ofParts parts) = part :: parts := by
  induction parts generalizing part with
  | nil =>
    rw [ofParts, List.flatMap_nil, List.append_nil]
    exact Query.splitOn_of_notMem hpart
  | cons next parts ih =>
    obtain ⟨hnext, hparts⟩ := List.forall_mem_cons.1 h
    rw [ofParts, List.flatMap_cons, List.cons_append, Query.splitOn_append hpart]
    exact congrArg (part :: ·) (ih hnext hparts)

end Path

namespace Route.Segment

variable {text : String} {segments : List Segment} {part : List UInt8} {parts : List (List UInt8)}

theorem parameters?_literal :
    parameters? (.literal text :: segments) (Text.encode text.toList :: parts) =
      parameters? segments parts := by
  cases segments <;> rw [parameters?, if_pos rfl]

theorem parameters?_of_ne (h : part ≠ Text.encode text.toList) :
    parameters? (.literal text :: segments) (part :: parts) = none := by
  cases segments <;> rw [parameters?, if_neg h]

end Route.Segment

namespace Router

theorem parameters?_ofParts {parts : List (List UInt8)} (h : ∀ part ∈ parts, asciiByte '/' ∉ part)
    (r : Route) :
    parameters? (Path.ofParts parts) r = Route.Segment.parameters? r.pattern parts := by
  have hsplit := Path.splitOn_append_ofParts List.not_mem_nil h
  rw [List.nil_append] at hsplit
  rw [parameters?, hsplit]

/-- A route is found if it is the only one of its method that fits. -/
theorem find?_filter_of_only {routes : List Route} {r : Route} {fits : Route → Bool}
    (hr : r ∈ routes) (hfits : fits r = true)
    (honly : ∀ r' ∈ routes, r'.method = r.method → fits r' = true → r' = r) :
    (routes.filter fits).find? (·.method = r.method) = some r := by
  cases hfound : (routes.filter fits).find? (·.method = r.method) with
  | none =>
    have hne := List.find?_eq_none.1 hfound r (List.mem_filter.2 ⟨hr, hfits⟩)
    simp at hne
  | some r' =>
    obtain ⟨hr', hfits'⟩ := List.mem_filter.1 (List.mem_of_find?_eq_some hfound)
    rw [honly r' hr' (by simpa using List.find?_some hfound) hfits']

/-- **Comparing paths segment by segment keeps the promises of a router.** -/
theorem bySegments_documented {routes : List Route}
    (hknown : ∀ r ∈ routes, r.method ∈ knownMethods) : bySegments.Documented routes where
  method := by
    intro method path endpoint parameters h
    simp only [bySegments] at h
    split at h
    · cases h
    · split at h
      · rename_i r hfind
        cases h
        have hmem := List.mem_of_find?_eq_some hfind
        exact ⟨r, (List.mem_filter.1 hmem).1, by simpa using List.find?_some hfind, rfl⟩
      · split at h <;> cases h
  handler := by
    intro r parts parameters hr hparts hparameters honly
    have hrouted : Path.routed (Path.ofParts parts) = Path.ofParts parts :=
      Path.routed_eq_self (Path.isPlain_ofParts fun part hpart b hb => (hparts part hpart b hb).1)
    have hfits := parameters?_ofParts fun part hpart hmem => (hparts part hpart _ hmem).2 rfl
    simp only [bySegments, hrouted, hfits, hknown r hr, not_true_eq_false, if_false]
    have hfind := find?_filter_of_only hr (Option.isSome_of_eq_some hparameters) honly
    rw [hfind]
    simp only [hparameters, Option.getD_some]

end Router

/-! ### Addresses of the service -/

namespace Request

/-- Asks for the conversion in the body. -/
def conversion (body : String) : Request := ⟨"POST", "/v1/convert", body⟩

/-- Asks for the entry of the given number in the history. -/
def entry (k : Int) (body : String) : Request := ⟨"GET", "/v1/history/" ++ toString k, body⟩

theorem path_entry (k : Int) (body : String) :
    (entry k body).path = Path.ofParts
      [Text.encode "v1".toList, Text.encode "history".toList, Text.encode (toString k).toList] := by
  obtain ⟨-, hplain, -⟩ := Text.encode_toString k
  have htarget : Text.encode (entry k body).target.toList =
      Text.encode "/v1/history/".toList ++ Text.encode (toString k).toList := by
    rw [entry, String.toList_append, Text.encode_append]
  have hquery : asciiByte '?' ∉ Text.encode (entry k body).target.toList := by
    rw [htarget]
    refine fun hmem => absurd (List.mem_append.1 hmem) (not_or.2 ⟨by decide, fun hmem => ?_⟩)
    exact absurd (hplain _ hmem) (by decide)
  rw [path, cutAt_of_notMem hquery, htarget, Path.ofParts]
  simp only [List.flatMap_cons, List.flatMap_nil, List.append_nil]
  rfl

end Request

namespace Router.Documented

variable {router : Router}

theorem conversion (h : router.Documented Server.routes) (body : String) :
    router Server.routes (Request.conversion body).verb (Request.conversion body).path =
      .handler .convert [] := by
  have hpath : (Request.conversion body).path =
      Path.ofParts [Text.encode "v1".toList, Text.encode "convert".toList] := by
    change (cutAt (asciiByte '?') (Text.encode "/v1/convert".toList)).1 = _
    decide
  let route : Route := ⟨"POST", [.literal "v1", .literal "convert"], .convert⟩
  have hroute : route ∈ Server.routes := List.mem_of_getElem? (i := 1) rfl
  rw [hpath]
  refine h.handler hroute ?_ (by decide) (by decide)
  simp only [List.forall_mem_cons]
  exact ⟨Path.isPlain_of_all (by decide), Path.isPlain_of_all (by decide), by simp⟩

/-- **The address of an entry leads to its number.** -/
theorem entry (h : router.Documented Server.routes) (k : Int) (body : String) :
    router Server.routes (Request.entry k body).verb (Request.entry k body).path =
      .handler .historyEntry [("id", Text.encode (toString k).toList)] := by
  obtain ⟨hne, hplain, hslash⟩ := Text.encode_toString k
  generalize hid : Text.encode (toString k).toList = id at hne hplain hslash
  rw [Request.path_entry, hid]
  let route : Route := ⟨"GET", [.literal "v1", .literal "history", .parameter "id"], .historyEntry⟩
  have hroute : route ∈ Server.routes := List.mem_of_getElem? (i := 6) rfl
  refine h.handler hroute ?_ ?_ ?_
  · simp only [List.forall_mem_cons]
    refine ⟨Path.isPlain_of_all (by decide), Path.isPlain_of_all (by decide),
      fun b hb => ⟨hplain b hb, ?_⟩, by simp⟩
    rintro rfl
    exact hslash hb
  · simp [route, Route.Segment.parameters?, hne]
  · have hhealth : Text.encode "v1".toList ≠ Text.encode "healthz".toList := by decide
    have hexercises : Text.encode "history".toList ≠ Text.encode "exercises".toList := by decide
    simp only [Server.routes, List.forall_mem_cons, Route.Segment.parameters?_literal,
      Route.Segment.parameters?_of_ne hhealth, Route.Segment.parameters?_of_ne hexercises]
    have hmethod : "POST" ≠ "GET" := by decide
    exact ⟨nofun, fun h => absurd h hmethod, nofun, nofun, nofun, nofun, fun _ _ => rfl, nofun⟩

end Router.Documented

end Pseudocode
