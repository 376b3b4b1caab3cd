import Overpass.Proofs.Except
import Overpass.Query
import Overpass.Tag.Filter

/-!
# Refused texts

The texts that a caller gives are refused one at a time, each for a single reason: a tag token as no
tag, a name as no name that may be given, a marker as no direction. Of several tag tokens the first
one that is malformed is the reason.

## Main Statements

* `TagFilter.exists_tagSyntax_of_ofText`, `TagFilter.exists_tagSyntax_of_ofPairs`: tags are refused
  for one of them
* `SetName.eq_invalidName_of_parse`: a name is refused for itself
* `Direction.exists_unknownMarker_of_parse`: a marker is refused for itself
-/

namespace Overpass

variable {text : String} {cause : QueryError}

/-- A tag is refused for its syntax only, and the refusal shows the text of the tag. -/
theorem Tag.eq_tagSyntax_of_parse (h : Tag.parse text = .error cause) :
    cause = .tagSyntax text := by
  unfold Tag.parse at h
  split at h
  · cases h
  · exact (Except.error.inj h).symm

/-- Of several tags the first one that is refused is shown. -/
theorem TagFilter.exists_tagSyntax_of_ofTokens {tokens : List String}
    (h : TagFilter.ofTokens tokens = .error cause) :
    ∃ token ∈ tokens, cause = .tagSyntax token := by
  obtain ⟨token, htoken, hparse⟩ := exists_mem_of_mapM_eq_error (map_eq_error_iff.mp h)
  exact ⟨token, htoken, Tag.eq_tagSyntax_of_parse hparse⟩

/-- A pair is refused as the token that it would be written as. -/
theorem Tag.eq_tagSyntax_of_ofPair {pair : String × Option String}
    (h : Tag.ofPair pair = .error cause) : cause = .tagSyntax (tokenText pair.1 pair.2) := by
  unfold Tag.ofPair at h
  split at h
  · cases h
  · exact (Except.error.inj h).symm

theorem TagFilter.exists_tagSyntax_of_ofPairs {pairs : List (String × Option String)}
    (h : TagFilter.ofPairs pairs = .error cause) :
    ∃ pair ∈ pairs, cause = .tagSyntax (Tag.tokenText pair.1 pair.2) := by
  obtain ⟨pair, hpair, hrefused⟩ := exists_mem_of_mapM_eq_error (map_eq_error_iff.mp h)
  exact ⟨pair, hpair, Tag.eq_tagSyntax_of_ofPair hrefused⟩

/-- A text of tags is refused for one of the tokens between its commas. -/
theorem TagFilter.exists_tagSyntax_of_ofText (h : TagFilter.ofText text = .error cause) :
    ∃ token, cause = .tagSyntax token := by
  unfold ofText at h
  split at h
  · cases h
  · obtain ⟨token, -, hcause⟩ := exists_tagSyntax_of_ofTokens h
    exact ⟨token, hcause⟩

/-- A name is refused as invalid and for nothing else, be it malformed or reserved. -/
theorem SetName.eq_invalidName_of_parse (h : SetName.parse text = .error cause) :
    cause = .invalidName text := by
  unfold SetName.parse at h
  split at h
  · cases h
  · exact (Except.error.inj h).symm

theorem Direction.exists_unknownMarker_of_parse (h : Direction.parse text = .error cause) :
    ∃ marker, cause = .unknownMarker marker := by
  unfold Direction.parse at h
  dsimp only at h
  split at h
  · cases h
  · exact ⟨_, (Except.error.inj h).symm⟩

end Overpass
