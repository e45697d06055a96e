/-
# Stack profiles

A stack profile is a named set of rules for one technology stack. Its rules are
added to the rules of the project, and the settings remember the key of the
profile only, so that a later version of the rules reaches the project too.
-/

namespace AgentKit

/-- A named set of rules for one technology stack. -/
structure StackProfile where
  key : String
  label : String
  rules : List String
  deriving DecidableEq, Repr

namespace StackProfile

/-- The profiles, in the order in which they are listed. Their keys are pairwise
different. -/
def all : List StackProfile :=
  [{ key := "generic"
     label := "Generic / none"
     rules := [] },
   { key := "frontend-react"
     label := "Frontend: React + Tailwind"
     rules := [
       "Prefer Functional Components with Hooks.",
       "Use Tailwind CSS for styling. Avoid inline styles.",
       "Ensure accessibility (a11y) standards are met.",
       "Use strict type checking if TypeScript is enabled.",
       "Prefer React Query or SWR for data fetching."] },
   { key := "frontend-next"
     label := "Frontend: Next.js (App Router)"
     rules := [
       "Use App Router directory structure.",
       "Prefer Server Components by default; use 'use client' only when necessary.",
       "Optimize images using next/image.",
       "Use Server Actions for mutations."] },
   { key := "frontend-vue"
     label := "Frontend: Vue.js 3 + Pinia"
     rules := [
       "Use Composition API with <script setup>.",
       "Use Pinia for state management.",
       "Prefer Tailwind CSS or Scoped CSS.",
       "Follow the Vue Style Guide Priority A rules."] },
   { key := "frontend-angular"
     label := "Frontend: Angular"
     rules := [
       "Use Standalone Components.",
       "Prefer Signals over RxJS for synchronous state.",
       "Strictly follow the Angular Style Guide.",
       "Use Dependency Injection patterns."] },
   { key := "backend-node"
     label := "Backend: Node.js (Express)"
     rules := [
       "Prefer Async/Await over raw Promises.",
       "Follow Error Handling best practices (don't ignore errors).",
       "Use Environment Variables for configuration.",
       "Adhere to RESTful API standards."] },
   { key := "backend-python-fastapi"
     label := "Backend: Python (FastAPI)"
     rules := [
       "Use Pydantic models for data validation.",
       "Use Type Hints for function arguments and return values.",
       "Implement async/await for I/O bound operations.",
       "Follow PEP 8 style guidelines."] },
   { key := "backend-java-spring"
     label := "Backend: Java (Spring Boot)"
     rules := [
       "Use constructor injection over @Autowired.",
       "Follow Google Java Style Guide.",
       "Use Lombok to reduce boilerplate code.",
       "Handle exceptions with @ControllerAdvice."] },
   { key := "backend-go"
     label := "Backend: Go (Golang)"
     rules := [
       "Handle errors explicitly (if err != nil).",
       "Follow strict formatting (gofmt).",
       "Prefer standard library over external dependencies when possible.",
       "Use context for cancellation and timeouts."] },
   { key := "mobile-flutter"
     label := "Mobile: Flutter"
     rules := [
       "Use const constructors whenever possible.",
       "Prefer Composition over Inheritance.",
       "Manage state with Riverpod or BLoC.",
       "Follow Effective Dart guidelines."] },
   { key := "data-python"
     label := "Data Science: Python"
     rules := [
       "Use Pandas vectorization over loops.",
       "Document notebooks with Markdown cells explaining logic.",
       "Use Type Hints even in scripts.",
       "Prefer Polars for large datasets if possible."] },
   { key := "infra-terraform"
     label := "Infra: Terraform"
     rules := [
       "Use modules for reusable resources.",
       "Keep state remote and locked.",
       "Format code with `terraform fmt`.",
       "Avoid hardcoding values; use variables."] }]

/-- The profile with a given key. -/
def find? (key : String) : Option StackProfile :=
  all.find? (·.key == key)

/-- The rules of a profile as one text, a rule a line. -/
def rulesText (profile : StackProfile) : String :=
  "\n".intercalate profile.rules

end StackProfile

end AgentKit
