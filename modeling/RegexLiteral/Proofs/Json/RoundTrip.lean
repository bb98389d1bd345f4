import RegexLiteral.Proofs.Json.Restore
import RegexLiteral.Proofs.SoundKept

/-!
# Reading undoes writing

The written form of a built node reads as the node itself if and only if its literals are single
characters, and nothing else can be wrong with it (`Node.round_trip`). So sound nodes are written
differently if they are different, and every tree that a parse makes of sound nodes can be stored.
-/

namespace RegexLiteral

namespace Node

theorem ofJson_toJson {n : Node} (h : n.Sound) : ofJson n.toJson = .ok n :=
  (restores h.built).reads h.literals

theorem toJson_injective {m n : Node} (hm : m.Sound) (hn : n.Sound) (h : m.toJson = n.toJson) :
    m = n := by
  have hread : ofJson m.toJson = .ok m := ofJson_toJson hm
  rw [h, ofJson_toJson hn] at hread
  exact (Except.ok.inj hread).symm

/-- A built node comes back from its written form if each literal in it is one character of category
`character`; otherwise it is refused because of a character. Hence no two sound nodes are written
alike, and what is read from a template comes back if the nodes that were put in are sound. -/
theorem round_trip :
    (∀ n : Node, n.Built →
      (ofJson n.toJson = .ok n ↔ ∀ t, .literal t ∈ n.characters →
        t.category = .character ∧ ∃ c, t.text = String.singleton c)
      ∧ (ofJson n.toJson ≠ .ok n →
        ∃ cause, ofJson n.toJson = .error (.invalid cause) ∧ cause.owner = .character))
    ∧ (∀ m n : Node, m.Sound → n.Sound → m.toJson = n.toJson → m = n)
    ∧ ∀ (t : Template) (production : Production) (fuel : Option Nat) (n : Node),
      (∀ sub ∈ t.substitutions, sub.Sound) → t.parse production fuel = .ok n →
        ofJson n.toJson = .ok n := by
  refine ⟨fun n hbuilt => ?_, fun m n => toJson_injective,
    fun t production fuel n hs h => ofJson_toJson (Template.sound_of_parse hs h)⟩
  obtain ⟨hreads, hrefuses⟩ := restores hbuilt
  rw [Character.allKeep_iff] at hreads hrefuses
  have hliterals (hok : ofJson n.toJson = .ok n) : ∀ t, .literal t ∈ n.characters →
      t.category = .character ∧ ∃ c, t.text = String.singleton c := by
    refine Classical.byContradiction fun hnot => ?_
    obtain ⟨cause, herror, -⟩ := hrefuses hnot
    rw [hok] at herror
    cases herror
  exact ⟨⟨hliterals, hreads⟩, fun hne => hrefuses fun hall => hne (hreads hall)⟩

theorem round_trip_samples :
    (∃ cause, ofJson (character (.literal (.plain .keyword "ab"))).toJson
      = .error (.invalid cause) ∧ cause.owner = .character)
    ∧ (character (.ofChar 'a')).toJson ≠ (character (.ofCode 'a')).toJson
    ∧ ∃ n, (⟨"/x", ["+/g"], [.character (.ofCode 'n')]⟩ : Template).parse .pattern none = .ok n
      ∧ ofJson n.toJson = .ok n := by
  have hcode (c : Char) : (character (.ofCode c)).Sound :=
    ⟨EscapeSequence.built_ofCode c, Character.allKeep_singleton.2 trivial⟩
  have hchar (c : Char) : (character (.ofChar c)).Sound :=
    ⟨built_ofChar c, Character.allKeep_singleton.2 (rules_ofChar c)⟩
  refine ⟨?_, fun h => ?_, ?_⟩
  · have hbuilt : (character (.literal (.plain .keyword "ab"))).Built := by
      change "ab" ≠ ""
      decide
    obtain ⟨hiff, hrefused⟩ := round_trip.1 _ hbuilt
    refine hrefused fun hok => ?_
    cases (hiff.1 hok (.plain .keyword "ab") List.mem_cons_self).1
  · cases round_trip.2.1 _ _ (hchar 'a') (hcode 'a') h
  · obtain ⟨n, hn⟩ : ∃ n, (⟨"/x", ["+/g"], [.character (.ofCode 'n')]⟩ : Template).parse .pattern
        none = .ok n := exists_of_isOk (by decide +kernel)
    have hs : ∀ sub ∈ [character (.ofCode 'n')], sub.Sound := by
      intro sub hsub
      rw [List.mem_singleton.1 hsub]
      exact hcode 'n'
    exact ⟨n, hn, round_trip.2.2 _ _ _ n hs hn⟩

end Node

end RegexLiteral
