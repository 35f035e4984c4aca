import GraphSelect.Showcase

/-!
Prints the report.
-/

def main : IO Unit :=
  IO.print GraphSelect.Showcase.all
