import Mathlib.Data.List.Basic

/-! The path of a URL: how its segments are written, and what its dot segments stand for. -/

namespace UrlPath

/-- The characters that stand for themselves in a segment. -/
def unreserved (c : Char) : Bool :=
  c.isAlphanum || "-_.!~*'()".toList.contains c

/-- A hexadecimal digit. -/
def hexDigit (value : Nat) : Char :=
  "0123456789ABCDEF".toList.getD value '0'

/-- A byte as an escape of two hexadecimal digits. -/
def escape (byte : UInt8) : List Char :=
  ['%', hexDigit (byte.toNat / 16), hexDigit (byte.toNat % 16)]

/-- A character as itself, or as the escapes of its bytes in UTF-8. -/
def encodeChar (c : Char) : List Char :=
  if unreserved c then [c] else (String.utf8EncodeChar c).flatMap escape

/-- A text as one segment of a path. -/
def encodeURIComponent (text : String) : String :=
  String.ofList (text.toList.flatMap encodeChar)

/-- Whether a segment names the segment it stands in, or the one above. -/
def dots (segment : String) : Bool :=
  segment = "." || segment = ".."

/-- Resolve the dot segments of a path. One that ends the path leaves an empty segment. -/
def resolve (kept : List String) : List String → List String
  | [] => kept
  | segment :: rest =>
    let above := if segment = ".." then kept.dropLast else kept
    if dots segment then resolve (if rest.isEmpty then above ++ [""] else above) rest
    else resolve (above ++ [segment]) rest

/-- The segments of a path, without a slash at its end. -/
def trimmed (path : List String) : List String :=
  if path.getLast? = some "" then path.dropLast else path

/-- A path as it is written. -/
def render (path : List String) : String :=
  String.join (path.map ("/" ++ ·))

/-- A segment that is written without escapes is the text itself. -/
theorem encodeURIComponent_eq_iff (text segment : String)
    (plain : segment.toList.all unreserved = true) :
    encodeURIComponent text = segment ↔ text = segment := by
  have plain := List.all_eq_true.mp plain
  -- A character that needs an escape would leave a percent sign in the segment.
  have same (unescaped : ∀ c ∈ text.toList, unreserved c = true) :
      encodeURIComponent text = text := by
    have each : ∀ c ∈ text.toList, encodeChar c = [c] := fun c member =>
      if_pos (unescaped c member)
    rw [encodeURIComponent, List.flatMap_congr each, List.flatMap_singleton', String.ofList_toList]
  constructor
  · intro written
    have unescaped : ∀ c ∈ text.toList, unreserved c = true := by
      intro c member
      by_contra reserved
      obtain ⟨byte, bytes, encoded⟩ :=
        List.exists_cons_of_ne_nil (String.utf8EncodeChar_ne_nil (c := c))
      have sign : '%' ∈ segment.toList := by
        rw [← written, encodeURIComponent, String.toList_ofList]
        refine List.mem_flatMap.mpr ⟨c, member, ?_⟩
        rw [encodeChar, if_neg reserved, encoded]
        simp [escape]
      exact absurd (plain _ sign) (by decide)
    exact (same unescaped).symm.trans written
  · rintro rfl
    exact same plain

/-- A path without dot segments is resolved already. -/
theorem resolve_of_plain {path : List String} :
    ∀ {kept : List String}, (∀ segment ∈ path, dots segment = false) →
      resolve kept path = kept ++ path := by
  induction path with
  | nil => exact fun _ => (List.append_nil _).symm
  | cons segment rest ih =>
    intro kept plain
    -- A segment that is no dots is kept, and leaves what stands above it.
    have own := plain segment List.mem_cons_self
    have named : segment ≠ ".." := fun above => by
      rw [above] at own
      cases own
    rw [resolve, if_neg named, if_neg (Bool.eq_false_iff.mp own),
      ih fun other member => plain other (List.mem_cons_of_mem _ member), List.append_assoc,
      List.singleton_append]

end UrlPath
