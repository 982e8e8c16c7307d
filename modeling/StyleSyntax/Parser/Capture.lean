import StyleSyntax.Parser.Basic

/-!
# Captured source

A parser together with the source that it consumes: as written, or without the whitespace and
comments at its beginning and with the position of its first significant token.
-/

namespace StyleSyntax.Parser

variable {α : Type}

/-- The value with the trimmed source that was consumed for it. -/
def capture (p : Parser α) : Parser (α × Excerpt) :=
  { run := fun region rest =>
      match p.run region rest with
      | ⟨.ok value, next⟩ =>
        let fallback := significantPosition rest region.finish
        ⟨.ok (value, excerptOf (consumed rest next) fallback), next⟩
      | ⟨.failed error, _⟩ => ⟨.failed error, rest⟩
      | ⟨.endless, _⟩ => ⟨.endless, rest⟩ }

/-- The source that was consumed, as written. -/
def rawValue (p : Parser α) : Parser Text :=
  { run := fun region rest =>
      match p.run region rest with
      | ⟨.ok _, next⟩ => ⟨.ok (spelling (consumed rest next)), next⟩
      | ⟨.failed error, _⟩ => ⟨.failed error, rest⟩
      | ⟨.endless, _⟩ => ⟨.endless, rest⟩ }

/-- The trimmed source that was consumed. -/
def excerpt (p : Parser α) : Parser Excerpt :=
  (capture p).map Prod.snd

end StyleSyntax.Parser
