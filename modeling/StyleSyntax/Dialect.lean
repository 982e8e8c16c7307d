/-!
# Dialects

The two languages of stylesheets. The extended one has everything that the plain one has, and
script besides.
-/

namespace StyleSyntax

/-- The language a document is written in. -/
inductive Dialect where
  /-- Plain style sheets: at-rules, rule blocks and declarations. -/
  | css
  /-- Style sheets with interpolation, variables, spreads, nested rules and script. -/
  | jss
deriving DecidableEq, Inhabited

end StyleSyntax
