import ProjectSetup.Recipe.Basic

/-!
# Built-in recipes

The recipes of the built-in catalog. Projects of React have the scripts `src/index` and `src/App`
with style sheets beside them; projects of Angular are laid out as its own tool does.
-/
namespace ProjectSetup.Recipe

def tsconfig (jsx : Bool) : Text :=
  let jsx := if jsx then "\n    \"jsx\": \"react-jsx\"," else ""
  String.toList <|
    "\x7b\n  \"compilerOptions\": \x7b\n    \"target\": \"es2020\",\n" ++
    "    \"lib\": [\"dom\", \"dom.iterable\", \"esnext\"],\n    \"module\": \"esnext\",\n" ++
    "    \"moduleResolution\": \"node\"," ++ jsx ++ "\n    \"strict\": true,\n" ++
    "    \"esModuleInterop\": true,\n    \"skipLibCheck\": true,\n    \"noEmit\": true\n  \x7d,\n" ++
    "  \"include\": [\"src\"]\n\x7d\n"

def typeScript (s : Setting) : Recipe :=
  match s.framework with
  | some .angular => {}
  | some .react => {
      devPackages := ["typescript", "@types/node", "@types/react", "@types/react-dom"]
      edits := [
        .rename "src/index.js" "src/index.tsx",
        .rename "src/App.js" "src/App.tsx",
        .write "tsconfig.json" (tsconfig true)] }
  | none => { devPackages := ["typescript"], edits := [.write "tsconfig.json" (tsconfig false)] }

/-- Put style sheets of another language in place of plain ones. -/
def stylesheets (s : Setting) (extension package : String) : Recipe :=
  let edits : List Edit := match s.framework with
    | some .react =>
      let script := s.scriptExtension true
      let swap (name file : String) : List Edit := [
        .rename s!"src/{name}.css" s!"src/{name}.{extension}",
        .removeImport file s!"./{name}.css".toList,
        .addImport file (.sideEffect s!"./{name}.{extension}".toList)]
      swap "index" s!"src/index.{script}" ++ swap "App" s!"src/App.{script}"
    | some .angular =>
      let styles := s!"src/styles.{extension}"
      -- the global style sheet is listed for the build and for the tests
      [ .rename "src/styles.css" styles,
        .replace "angular.json" "src/styles.css".toList styles.toList,
        .replace "angular.json" "src/styles.css".toList styles.toList,
        .rename "src/app/app.component.css" s!"src/app/app.component.{extension}",
        .replace "src/app/app.component.ts" "./app.component.css".toList
          s!"./app.component.{extension}".toList]
    | none => []
  { devPackages := [package], edits }

def redux (s : Setting) : Recipe :=
  let index := s!"src/index.{s.scriptExtension true}"
  { packages := ["@reduxjs/toolkit", "react-redux"]
    edits := [
      .write s!"src/store.{s.scriptExtension false}" <| String.toList <|
        "import \x7b configureStore \x7d from '@reduxjs/toolkit'\n\n" ++
        "export const store = configureStore(\x7b reducer: \x7b\x7d \x7d)\n",
      .addImport index (.ofNames ["Provider".toList] "react-redux".toList),
      .addImport index (.ofNames ["store".toList] "./store".toList),
      .replace index "<App />".toList "<Provider store=\x7bstore\x7d><App /></Provider>".toList] }

def mobX (s : Setting) : Recipe where
  packages := ["mobx", "mobx-react-lite"]
  edits := [
    .write s!"src/stores/counter.{s.scriptExtension false}" <| String.toList <|
      "import \x7b makeAutoObservable \x7d from 'mobx'\n\n" ++
      "export class CounterStore \x7b\n  count = 0\n\n" ++
      "  constructor() \x7b\n    makeAutoObservable(this)\n  \x7d\n\n" ++
      "  increment() \x7b\n    this.count += 1\n  \x7d\n\x7d\n\n" ++
      "export const counterStore = new CounterStore()\n"]

def ngRx : Recipe where
  packages := ["@ngrx/store"]
  edits := [
    .write "src/app/app.state.ts" <| String.toList <|
      "import \x7b StoreModule \x7d from '@ngrx/store'\n\n" ++
      "export const AppStoreModule = StoreModule.forRoot(\x7b\x7d)\n",
    .addToArray "src/app/app.module.ts" "imports".toList
      (.ofNames ["AppStoreModule".toList] "./app.state".toList)]

/-- The base configuration comes last, so that others can be added behind it. -/
def esLint (s : Setting) : Recipe :=
  let react := s.framework == some .react
  let configs :=
    (if react then ["\"react-app\""] else []) ++
    (if s.typeScript then ["\"plugin:@typescript-eslint/recommended\""] else []) ++
    ["\"eslint:recommended\""]
  let parser := if s.typeScript then "  \"parser\": \"@typescript-eslint/parser\",\n" else ""
  { devPackages := ["eslint"] ++
      (if react then ["eslint-config-react-app"] else []) ++
      (if s.typeScript then ["@typescript-eslint/parser", "@typescript-eslint/eslint-plugin"] else [])
    edits := [.write ".eslintrc.json" <| String.toList <|
      "\x7b\n  \"root\": true,\n" ++ parser ++ "  \"extends\": [" ++
        String.intercalate ", " configs ++ "]\n\x7d\n"] }

/-- The options of a style as a configuration file lists them. -/
def prettierConfig (s : Style) : Text :=
  let flag (b : Bool) : Text := if b then "true".toList else "false".toList
  "singleQuote: ".toList ++ flag s.singleQuote ++
    "\nsemi: ".toList ++ flag s.semi ++
    "\ntrailingComma: ".toList ++ s.trailingComma.name.toList ++
    "\nprintWidth: ".toList ++ Nat.toDigits 10 s.printWidth ++ ['\n']

def prettier (o : StyleOverrides) : Recipe where
  devPackages := ["prettier"]
  edits := [
    .write ".prettierrc.yaml" (prettierConfig o.resolve),
    .write ".prettierignore" "build\ndist\nnode_modules\n".toList]

def esLintPrettier : Recipe where
  devPackages := ["eslint-config-prettier"]
  edits := [.replace ".eslintrc.json" "\"eslint:recommended\"".toList
    "\"eslint:recommended\", \"prettier\"".toList]

/-- The recipes by the names of their extensions. -/
def table (s : Setting) (o : StyleOverrides) : List (String × Recipe) := [
  (Builtin.react, { generator := some "npx create-react-app ." }),
  (Builtin.angular,
    { generator := some "npx @angular/cli new app --directory . --style css --skip-git" }),
  (Builtin.typeScript, typeScript s),
  (Builtin.sass, stylesheets s "scss" "sass"),
  (Builtin.less, stylesheets s "less" "less"),
  (Builtin.stylus, stylesheets s "styl" "stylus"),
  (Builtin.redux, redux s),
  (Builtin.mobX, mobX s),
  (Builtin.ngRx, ngRx),
  (Builtin.esLint, esLint s),
  (Builtin.prettier, prettier o),
  (Builtin.esLintPrettier, esLintPrettier)]

/-- The recipe of the extension with exactly the given name. -/
def ofName? (name : String) (s : Setting) (o : StyleOverrides) : Option Recipe :=
  (table s o).lookup name

end ProjectSetup.Recipe
