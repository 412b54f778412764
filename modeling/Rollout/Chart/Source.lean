import Rollout.Text.Split

/-!
# The texts of templates

The templates that every chart shares, in the language of Helm. In the texts here, `‹`
and `›` stand for braces, `<chart>` for the name of the chart and `<kind>` for the kind of
the workload.
-/

namespace Rollout.Chart

/-- A text in which the signs for braces are braces. -/
def marked (s : String) : String := Text.replace (Text.replace s "‹" "\x7b") "›" "\x7d"

/-- A template for the chart of a name. -/
def fill (template chart : String) : String := Text.replace template "<chart>" chart

/-- A template for a workload of a kind. -/
def fillKind (template kind : String) : String := Text.replace template "<kind>" kind

/-- The named templates that the others use. -/
def helpersText : String := marked r#"‹‹/*
Expand the name of the chart.
*/››
‹‹- define "<chart>.name" -››
‹‹- default .Chart.Name .Values.nameOverride | trunc 63 | trimSuffix "-" ››
‹‹- end ››

‹‹/*
Create a default fully qualified app name, truncated to the 63 characters
allowed in DNS names.
*/››
‹‹- define "<chart>.fullname" -››
‹‹- if .Values.fullnameOverride ››
‹‹- .Values.fullnameOverride | trunc 63 | trimSuffix "-" ››
‹‹- else ››
‹‹- $name := default .Chart.Name .Values.nameOverride ››
‹‹- if contains $name .Release.Name ››
‹‹- .Release.Name | trunc 63 | trimSuffix "-" ››
‹‹- else ››
‹‹- printf "%s-%s" .Release.Name $name | trunc 63 | trimSuffix "-" ››
‹‹- end ››
‹‹- end ››
‹‹- end ››

‹‹- define "<chart>.chart" -››
‹‹- printf "%s-%s" .Chart.Name .Chart.Version | replace "+" "_" | trunc 63 | trimSuffix "-" ››
‹‹- end ››

‹‹- define "<chart>.labels" -››
helm.sh/chart: ‹‹ include "<chart>.chart" . ››
‹‹ include "<chart>.selectorLabels" . ››
‹‹- if .Chart.AppVersion ››
app.kubernetes.io/version: ‹‹ .Chart.AppVersion | quote ››
‹‹- end ››
app.kubernetes.io/managed-by: ‹‹ .Release.Service ››
‹‹- end ››

‹‹- define "<chart>.selectorLabels" -››
app.kubernetes.io/name: ‹‹ include "<chart>.name" . ››
app.kubernetes.io/instance: ‹‹ .Release.Name ››
‹‹- end ››

‹‹- define "<chart>.serviceAccountName" -››
‹‹- if .Values.serviceAccount.create ››
‹‹- default (include "<chart>.fullname" .) .Values.serviceAccount.name ››
‹‹- else ››
‹‹- default "default" .Values.serviceAccount.name ››
‹‹- end ››
‹‹- end ››
"#

/-- The template of a workload down to its replicas. -/
def workloadHead : String := marked r#"apiVersion: apps/v1
kind: <kind>
metadata:
  name: ‹‹ include "<chart>.fullname" . ››
  labels:
    ‹‹- include "<chart>.labels" . | nindent 4 ››
spec:
  ‹‹- if not .Values.autoscaling.enabled ››
  replicas: ‹‹ .Values.replicaCount ››
  ‹‹- end ››
"#

/-- The template of a workload from its selector to the resources of its container. -/
def workloadPod : String := marked r#"  selector:
    matchLabels:
      ‹‹- include "<chart>.selectorLabels" . | nindent 6 ››
  template:
    metadata:
      ‹‹- with .Values.podAnnotations ››
      annotations:
        ‹‹- toYaml . | nindent 8 ››
      ‹‹- end ››
      labels:
        ‹‹- include "<chart>.selectorLabels" . | nindent 8 ››
    spec:
      serviceAccountName: ‹‹ include "<chart>.serviceAccountName" . ››
      ‹‹- with .Values.imagePullSecrets ››
      imagePullSecrets:
        ‹‹- toYaml . | nindent 8 ››
      ‹‹- end ››
      ‹‹- with .Values.nodeSelector ››
      nodeSelector:
        ‹‹- toYaml . | nindent 8 ››
      ‹‹- end ››
      containers:
        - name: ‹‹ .Chart.Name ››
          image: "‹‹ .Values.image.repository ››:‹‹ .Values.image.tag | default .Chart.AppVersion ››"
          imagePullPolicy: ‹‹ .Values.image.pullPolicy ››
          ‹‹- with .Values.env ››
          env:
            ‹‹- range $name, $value := . ››
            - name: ‹‹ $name ››
              value: ‹‹ $value | quote ››
            ‹‹- end ››
          ‹‹- end ››
          ‹‹- with .Values.livenessProbe ››
          livenessProbe:
            ‹‹- toYaml . | nindent 12 ››
          ‹‹- end ››
          ‹‹- with .Values.readinessProbe ››
          readinessProbe:
            ‹‹- toYaml . | nindent 12 ››
          ‹‹- end ››
          resources:
            ‹‹- toYaml .Values.resources | nindent 12 ››
"#

/-- The template of a Service down to its first port. -/
def serviceHead : String := marked r#"‹‹- if .Values.service.enabled -››
apiVersion: v1
kind: Service
metadata:
  name: ‹‹ include "<chart>.fullname" . ››
  labels:
    ‹‹- include "<chart>.labels" . | nindent 4 ››
spec:
  ‹‹- if .Values.service.headless ››
  clusterIP: None
  ‹‹- else ››
  type: ‹‹ .Values.service.type ››
  ‹‹- end ››
  ports:
    - port: ‹‹ .Values.service.port ››
      targetPort: ‹‹ .Values.service.targetPort ››
      protocol: TCP
      name: ‹‹ .Values.service.portName ››
"#

/-- The template of the account of the pods. -/
def serviceAccountText : String := marked r#"‹‹- if .Values.serviceAccount.create -››
apiVersion: v1
kind: ServiceAccount
metadata:
  name: ‹‹ include "<chart>.serviceAccountName" . ››
  labels:
    ‹‹- include "<chart>.labels" . | nindent 4 ››
  ‹‹- with .Values.serviceAccount.annotations ››
  annotations:
    ‹‹- toYaml . | nindent 4 ››
  ‹‹- end ››
‹‹- end ››
"#

/-- The template of an Ingress, which routes every path to the Service. -/
def ingressText : String := marked r#"‹‹- if .Values.ingress.enabled -››
‹‹- $fullName := include "<chart>.fullname" . -››
‹‹- $svcPort := .Values.service.port -››
apiVersion: networking.k8s.io/v1
kind: Ingress
metadata:
  name: ‹‹ $fullName ››
  labels:
    ‹‹- include "<chart>.labels" . | nindent 4 ››
  ‹‹- with .Values.ingress.annotations ››
  annotations:
    ‹‹- toYaml . | nindent 4 ››
  ‹‹- end ››
spec:
  ‹‹- with .Values.ingress.className ››
  ingressClassName: ‹‹ . ››
  ‹‹- end ››
  ‹‹- if .Values.ingress.tls ››
  tls:
    ‹‹- range .Values.ingress.tls ››
    - hosts:
        ‹‹- range .hosts ››
        - ‹‹ . | quote ››
        ‹‹- end ››
      secretName: ‹‹ .secretName ››
    ‹‹- end ››
  ‹‹- end ››
  rules:
    ‹‹- range .Values.ingress.hosts ››
    - host: ‹‹ .host | quote ››
      http:
        paths:
          ‹‹- range .paths ››
          - path: ‹‹ .path ››
            pathType: ‹‹ .pathType ››
            backend:
              service:
                name: ‹‹ $fullName ››
                port:
                  number: ‹‹ $svcPort ››
          ‹‹- end ››
    ‹‹- end ››
‹‹- end ››
"#

/-- The template of an autoscaler. -/
def autoscalerText : String := marked r#"‹‹- if .Values.autoscaling.enabled ››
apiVersion: autoscaling/v2
kind: HorizontalPodAutoscaler
metadata:
  name: ‹‹ include "<chart>.fullname" . ››
  labels:
    ‹‹- include "<chart>.labels" . | nindent 4 ››
spec:
  scaleTargetRef:
    apiVersion: apps/v1
    kind: <kind>
    name: ‹‹ include "<chart>.fullname" . ››
  minReplicas: ‹‹ .Values.autoscaling.minReplicas ››
  maxReplicas: ‹‹ .Values.autoscaling.maxReplicas ››
  metrics:
    ‹‹- if .Values.autoscaling.targetCPUUtilizationPercentage ››
    - type: Resource
      resource:
        name: cpu
        target:
          type: Utilization
          averageUtilization: ‹‹ .Values.autoscaling.targetCPUUtilizationPercentage ››
    ‹‹- end ››
    ‹‹- if .Values.autoscaling.targetMemoryUtilizationPercentage ››
    - type: Resource
      resource:
        name: memory
        target:
          type: Utilization
          averageUtilization: ‹‹ .Values.autoscaling.targetMemoryUtilizationPercentage ››
    ‹‹- end ››
‹‹- end ››
"#

/-- What is told after an installation. -/
def notesText : String := marked r#"Thank you for installing ‹‹ .Chart.Name ››.

Your release is named ‹‹ .Release.Name ››.

‹‹- if .Values.ingress.enabled ››
Application URLs:
‹‹- range .Values.ingress.hosts ››
  http‹‹ if $.Values.ingress.tls ››s‹‹ end ››://‹‹ .host ››
‹‹- end ››
‹‹- else if contains "NodePort" .Values.service.type ››
  export NODE_PORT=$(kubectl get --namespace ‹‹ .Release.Namespace ›› -o jsonpath="‹.spec.ports[0].nodePort›" services ‹‹ include "<chart>.fullname" . ››)
  export NODE_IP=$(kubectl get nodes --namespace ‹‹ .Release.Namespace ›› -o jsonpath="‹.items[0].status.addresses[0].address›")
  echo http://$NODE_IP:$NODE_PORT
‹‹- else if contains "LoadBalancer" .Values.service.type ››
  kubectl get --namespace ‹‹ .Release.Namespace ›› svc -w ‹‹ include "<chart>.fullname" . ››
‹‹- else ››
  kubectl --namespace ‹‹ .Release.Namespace ›› port-forward svc/‹‹ include "<chart>.fullname" . ›› ‹‹ .Values.service.port ››:‹‹ .Values.service.port ››
  echo "Visit http://127.0.0.1:‹‹ .Values.service.port ››"
‹‹- end ››
"#

/-- The template of a pod that tests the connection to the Service. -/
def testText : String := marked r#"apiVersion: v1
kind: Pod
metadata:
  name: "‹‹ include "<chart>.fullname" . ››-test-connection"
  labels:
    ‹‹- include "<chart>.labels" . | nindent 4 ››
  annotations:
    "helm.sh/hook": test
spec:
  containers:
    - name: wget
      image: busybox:1.36
      command: ['wget']
      args: ['‹‹ include "<chart>.fullname" . ››:‹‹ .Values.service.port ››']
  restartPolicy: Never
"#

/-- The files that an archive of the chart leaves out. -/
def ignoreText : String := r#"# Patterns to ignore when building packages.
.DS_Store
.git/
.gitignore
.bzr/
.hg/
.svn/
*.swp
*.bak
*.tmp
*.orig
*~
.project
.idea/
*.tmproj
.vscode/
"#

end Rollout.Chart
